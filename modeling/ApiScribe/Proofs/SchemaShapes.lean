import ApiScribe.Shape.OfSchema

/-!
# Classifying and what is inside

`Shape.ofSchema` goes down a schema and classifies on the way up.  Both steps are taken apart here:
`Shape.ofSchema_eq` says that the shape of a schema is that of its own keywords with the shapes of the
schemas inside it (`Schema.innerShapes`), and the shapes inside are those of the schemas inside.

The flag for null is set last, whatever the kind is, so it can be set before or after classifying
(`Shape.ofSchema_nullable`).
-/

namespace ApiScribe

/-! ## Parts of a schema -/

namespace Schema

/-- A schema is directly inside another one. -/
inductive HasPart (schema : Schema) : Schema → Prop
  | property {entries : List (String × Schema)} {entry : String × Schema}
    (h : schema.properties = some entries) (hmem : entry ∈ entries) : HasPart schema entry.2
  | items {items : Schema} (h : schema.items = some items) : HasPart schema items
  | values {values : Schema} (h : schema.additional = some (.schema values)) :
    HasPart schema values
  | anyOf {members : List Schema} {member : Schema} (h : schema.anyOf = some members)
    (hmem : member ∈ members) : HasPart schema member
  | oneOf {members : List Schema} {member : Schema} (h : schema.oneOf = some members)
    (hmem : member ∈ members) : HasPart schema member
  | allOf {members : List Schema} {member : Schema} (h : schema.allOf = some members)
    (hmem : member ∈ members) : HasPart schema member

theorem HasPart.sizeOf_lt {schema part : Schema} (h : schema.HasPart part) :
    sizeOf part < sizeOf schema := by
  have hlist : ∀ {field : Option (List Schema)} {members : List Schema} {member : Schema},
      field = some members → member ∈ members → sizeOf member < sizeOf field := by
    rintro _ members member rfl hmem
    have hlt := List.sizeOf_lt_of_mem hmem
    rw [Option.some.sizeOf_spec]
    omega
  obtain ⟨type, ref, properties, required, items, enumeration, anyOf, oneOf, allOf, additional,
    discriminator, format, const, nullable, description⟩ := schema
  rw [Schema.mk.sizeOf_spec]
  cases h with
  | @property entries entry h hmem =>
    obtain ⟨name, entry⟩ := entry
    have hlt := List.sizeOf_lt_of_mem hmem
    rw [Prod.mk.sizeOf_spec] at hlt
    obtain rfl : properties = some entries := h
    rw [Option.some.sizeOf_spec]
    dsimp only
    omega
  | items h =>
    obtain rfl : items = some part := h
    rw [Option.some.sizeOf_spec]
    omega
  | values h =>
    obtain rfl : additional = some (.schema part) := h
    rw [Option.some.sizeOf_spec, AdditionalKeyword.schema.sizeOf_spec]
    omega
  | anyOf h hmem =>
    have hlt := hlist h hmem
    dsimp only at hlt
    omega
  | oneOf h hmem =>
    have hlt := hlist h hmem
    dsimp only at hlt
    omega
  | allOf h hmem =>
    have hlt := hlist h hmem
    dsimp only at hlt
    omega

/-- A property of schemas holds for all of them if it holds for a schema whenever it holds for the
schemas inside. -/
theorem induct {P : Schema → Prop}
    (h : ∀ schema, (∀ part, schema.HasPart part → P part) → P schema) (schema : Schema) :
    P schema := by
  induction schema using WellFounded.induction (measure (sizeOf : Schema → Nat)).wf with
  | _ schema ih => exact h schema fun part hpart => ih part hpart.sizeOf_lt

end Schema

/-! ## Shapes of the parts -/

/-- The additional values that a keyword allows. -/
def AdditionalKeyword.values : AdditionalKeyword → AdditionalValues
  | .flag true => .unrestricted
  | .flag false => .forbidden
  | .schema values => Shape.additionalOf (Shape.ofSchema values)

/-- The shapes of the schemas inside a schema. -/
def Schema.innerShapes (schema : Schema) : InnerShapes where
  properties := (schema.properties.map Shape.ofNamedSchemas).getD []
  items := schema.items.map Shape.ofSchema
  additional := (schema.additional.map AdditionalKeyword.values).getD .unspecified
  anyOf := schema.anyOf.map Shape.ofSchemas
  oneOf := schema.oneOf.map Shape.ofSchemas
  allOf := schema.allOf.map Shape.ofSchemas

namespace Shape

/-- **A schema is classified by its keywords** and the shapes inside it. -/
theorem ofSchema_eq (schema : Schema) : ofSchema schema = classify schema schema.innerShapes := by
  obtain ⟨type, ref, properties, required, items, enumeration, anyOf, oneOf, allOf, additional,
    discriminator, format, const, nullable, description⟩ := schema
  -- The recursion is on schemas inside of options, so it computes when it is known which are there.
  rcases additional with _ | ⟨_ | _⟩ | values
  all_goals
    cases properties <;> cases items <;> cases anyOf <;> cases oneOf <;> cases allOf <;> rfl

theorem ofSchemas_eq_map (schemas : List Schema) : ofSchemas schemas = schemas.map ofSchema := by
  induction schemas with
  | nil => rfl
  | cons schema schemas ih => rw [ofSchemas, ih, List.map_cons]

theorem ofNamedSchemas_eq_map (entries : List (String × Schema)) :
    ofNamedSchemas entries = entries.map fun entry => (entry.1, ofSchema entry.2) := by
  induction entries with
  | nil => rfl
  | cons entry entries ih => rw [ofNamedSchemas, ih, List.map_cons]

/-! ## The flag for null -/

theorem ofEnumeration_nullable (schema : Schema) (values : List EnumValue) :
    ofEnumeration { schema with nullable := some true } values =
      { ofEnumeration schema values with nullable := true } :=
  rfl

theorem ofTypeNames_nullable (schema : Schema) (inner : InnerShapes) (names : List String) :
    ofTypeNames { schema with nullable := some true } inner names =
      { ofTypeNames schema inner names with nullable := true } :=
  rfl

/-- A member that stands for the union is nullable if the union is. -/
theorem ofUnion_nullable (schema : Schema) (kind : CompositionKind) (members : List Shape) :
    ofUnion { schema with nullable := some true } kind members =
      { ofUnion schema kind members with nullable := true } := by
  rw [ofUnion, ofUnion]
  dsimp only
  split
  next only _ _ => simp
  next => rfl

/-- The flag among the keywords is the flag of the shape, whichever keyword decides. -/
theorem classify_nullable (schema : Schema) (inner : InnerShapes) :
    classify { schema with nullable := some true } inner =
      { classify schema inner with nullable := true } := by
  rw [classify, classify]
  dsimp only
  -- One keyword after the other, in the order in which they count.
  cases schema.ref with
  | some pointer => rfl
  | none =>
  cases schema.const with
  | some value => rfl
  | none =>
  cases schema.enumeration with
  | some values => exact ofEnumeration_nullable schema values
  | none =>
  cases inner.allOf with
  | some members => rfl
  | none =>
  cases inner.oneOf with
  | some members => exact ofUnion_nullable schema .oneOf members
  | none =>
  cases inner.anyOf with
  | some members => exact ofUnion_nullable schema .anyOf members
  | none =>
  match schema.type with
  | some (.single name) => rfl
  | some (.several names) => exact ofTypeNames_nullable schema inner names
  | none => rfl

/-- **The flag for null** can be set before a schema is classified or after. -/
theorem ofSchema_nullable (schema : Schema) :
    ofSchema { schema with nullable := some true } = { ofSchema schema with nullable := true } := by
  have hinner : { schema with nullable := some true : Schema }.innerShapes = schema.innerShapes := rfl
  rw [ofSchema_eq, ofSchema_eq, hinner, classify_nullable]

end Shape

end ApiScribe
