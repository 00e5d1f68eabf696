import ApiScribe.Proofs.SchemaShapes

/-!
# The spellings of null

That a value may be null is written in three ways: by the keyword for it, by a member of a union that
admits null alone, and by null among the names of types.  All of them become the flag of the shape, and
nothing else of the shape depends on which one was chosen.

* A union with a schema and one for null alone has one member left, which stands for it, unions that
  stand for their own members included (`ofUnion_pair`).
* Of a list of type names only those that are not null count for the kind, and whether there were others
  counts for the flag (`ofTypeNames_filter`).

`nullable_spellings` is about schemas as they are written.
-/

namespace ApiScribe

/-- No keyword counts before the names of types. -/
structure Schema.GoesByType (schema : Schema) : Prop where
  ref : schema.ref = none
  const : schema.const = none
  enumeration : schema.enumeration = none
  allOf : schema.allOf = none
  oneOf : schema.oneOf = none
  anyOf : schema.anyOf = none

namespace Shape

/-! ## Unions with null -/

/-- **A union of a shape and null** is the shape, which is nullable then. -/
theorem ofUnion_pair {schema : Schema} (hdiscriminator : schema.discriminator = none)
    (kind : CompositionKind) {members : List Shape} {shape null : Shape}
    (hmembers : members.Perm [shape, null]) (hshape : shape.isNull = false)
    (hnull : null.isNull = true) :
    ofUnion schema kind members =
      { shape with
        nullable := true
        description := schema.description.orElse fun _ => shape.description } := by
  have hkept : (members.filter fun member => !member.isNull) = [shape] := by
    have hperm := hmembers.filter fun member => !member.isNull
    rwa [List.filter_cons_of_pos (by rw [hshape]; rfl),
      List.filter_cons_of_neg (by rw [hnull]; exact Bool.false_ne_true), List.filter_nil,
      List.perm_singleton] at hperm
  have hany : members.any isNull = true :=
    List.any_eq_true.mpr ⟨null, hmembers.mem_iff.mpr (by simp), hnull⟩
  rw [ofUnion, hkept, hdiscriminator, hany, Bool.or_true]
  dsimp only
  rw [Bool.or_true]

/-- A schema that says nothing but which members a union has is classified as the union. -/
theorem ofSchema_anyOf (members : List Schema) :
    ofSchema { anyOf := some members } =
      ofUnion { anyOf := some members } .anyOf (members.map ofSchema) := by
  rw [ofSchema_eq, ← ofSchemas_eq_map]
  rfl

theorem ofSchema_oneOf (members : List Schema) :
    ofSchema { oneOf := some members } =
      ofUnion { oneOf := some members } .oneOf (members.map ofSchema) := by
  rw [ofSchema_eq, ← ofSchemas_eq_map]
  rfl

/-! ## Names of types -/

/-- A schema that goes by its type names is classified by them. -/
theorem ofSchema_several {schema : Schema} (h : schema.GoesByType) (names : List String) :
    ofSchema { schema with type := some (.several names) } =
      ofTypeNames schema schema.innerShapes names := by
  obtain ⟨type, ref, properties, required, items, enumeration, anyOf, oneOf, allOf, additional,
    discriminator, format, const, nullable, description⟩ := schema
  obtain ⟨rfl, rfl, rfl, rfl, rfl, rfl⟩ := h
  rw [ofSchema_eq]
  rfl

/-- **Null among the names of types** makes the shape nullable and counts for nothing else. -/
theorem ofTypeNames_filter (schema : Schema) (inner : InnerShapes) {names : List String}
    (h : "null" ∈ names) :
    ofTypeNames schema inner names =
      { ofTypeNames schema inner (names.filter fun name => name ≠ "null") with
        nullable := true } := by
  have hfewer : (names.filter fun name => name ≠ "null").length < names.length :=
    List.length_filter_lt_length_iff_exists.mpr ⟨"null", h, by simp⟩
  have hagain : ((names.filter fun name => name ≠ "null").filter fun name => name ≠ "null") =
      names.filter fun name => name ≠ "null" :=
    List.filter_eq_self.mpr fun name hname => (List.mem_filter.mp hname).2
  rw [ofTypeNames, ofTypeNames, hagain, decide_eq_true hfewer, Bool.or_true]

/-! ## Schemas -/

/-- **The spellings of null are interchangeable.**  A union of any schema that is not null alone with
any schema that is, in either order, is the schema with the keyword for null, and its shape is that of
the schema with the flag.  So are type names with null among them the other names with the keyword. -/
theorem nullable_spellings :
    (∀ schema null : Schema, (ofSchema schema).isNull = false → (ofSchema null).isNull = true →
      ∀ members : List Schema, members.Perm [schema, null] →
        ofSchema { anyOf := some members } = { ofSchema schema with nullable := true } ∧
        ofSchema { oneOf := some members } = { ofSchema schema with nullable := true } ∧
        ofSchema { schema with nullable := some true } = { ofSchema schema with nullable := true }) ∧
    ∀ schema : Schema, schema.GoesByType → ∀ names : List String, "null" ∈ names →
      ofSchema { schema with type := some (.several names) } =
        ofSchema { schema with
          type := some (.several (names.filter fun name => name ≠ "null"))
          nullable := some true } := by
  constructor
  · intro schema null hschema hnull members hmembers
    have hshapes : (members.map ofSchema).Perm [ofSchema schema, ofSchema null] :=
      hmembers.map ofSchema
    refine ⟨?_, ?_, ofSchema_nullable schema⟩
    · rw [ofSchema_anyOf, ofUnion_pair rfl .anyOf hshapes hschema hnull]
      rfl
    · rw [ofSchema_oneOf, ofUnion_pair rfl .oneOf hshapes hschema hnull]
      rfl
  · intro schema htype names hnames
    calc ofSchema { schema with type := some (.several names) }
      _ = ofTypeNames schema schema.innerShapes names := ofSchema_several htype names
      _ = { ofTypeNames schema schema.innerShapes (names.filter fun name => name ≠ "null") with
            nullable := true } := ofTypeNames_filter schema schema.innerShapes hnames
      _ = { ofSchema { schema with
              type := some (.several (names.filter fun name => name ≠ "null")) } with
            nullable := true } := by rw [ofSchema_several htype]
      _ = _ := (ofSchema_nullable _).symm

/-- A pet or null, where null is one of the values of an enumeration of nothing else. -/
def petOrNull : Schema where
  anyOf := some [{ enumeration := some [.null] }, { ref := some "#/components/schemas/Pet" }]

theorem nullable_spellings_petOrNull :
    ofSchema { oneOf := some [{ type := some (.single "null") }, petOrNull] } =
        ⟨.reference "#/components/schemas/Pet", true, none⟩ ∧
      ofSchema { type := some (.several ["null", "string", "integer", "null"]), format := some "id" } =
        ofSchema { type := some (.several ["string", "integer"]), format := some "id",
                   nullable := some true } := by
  obtain ⟨hunion, hnames⟩ := nullable_spellings
  constructor
  · have hperm : List.Perm [{ type := some (.single "null") }, petOrNull]
        [petOrNull, { type := some (.single "null") }] := List.Perm.swap _ _ []
    exact (hunion petOrNull { type := some (.single "null") } rfl rfl _ hperm).2.1
  · have htype : ({ format := some "id" } : Schema).GoesByType := ⟨rfl, rfl, rfl, rfl, rfl, rfl⟩
    exact hnames { format := some "id" } htype ["null", "string", "integer", "null"] (by decide)

end Shape

end ApiScribe
