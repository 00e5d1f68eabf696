import ApiScribe.Proofs.CollectedBindings
import ApiScribe.Proofs.SchemaReading
import ApiScribe.Proofs.SchemaShapes

/-!
# The mappings that schemas are read with

A discriminator writes its mapping as an object, so in a value without repeated names no literal is mapped
twice.  A union of a document is not always the union that its schema writes: where one member remains of
a union without a discriminator, that member stands for it, and the member may be such a union again.

`Schema.MapsOnce` therefore speaks of a schema and of the members of its unions, at any depth.  Every
schema that is read from a merged value maps once (`mapsOnce_of_ofJson?`), and so do the unions among the
shapes of a document that was read (`Document.WasRead.nodup_mapping`).
-/

namespace ApiScribe

/-- **No literal is mapped twice** by a discriminator that is read from a merged value. -/
theorem Discriminator.nodup_of_ofJson? {value : Json} {discriminator : Discriminator}
    (hvalue : value.Merged) (h : ofJson? value = some discriminator) :
    discriminator.mapping.names.Nodup := by
  simp only [ofJson?, Option.bind_eq_bind, Option.bind_eq_some_iff, Option.pure_def,
    Option.some.injEq] at h
  obtain ⟨fields, hfields, property, -, mapping, hmapping, rfl⟩ := h
  rcases Document.optionalField?_cases hmapping with rfl | ⟨field, table, hfield, htable, rfl⟩
  · exact List.nodup_nil
  · have hmerged : field.Merged := Document.merged_of_record? hvalue hfields hfield
    cases field with
    | object members =>
      rw [Option.getD_some, Table.names_of_tableOf? htable]
      exact hmerged.names
    | _ => cases htable

/-- What is inside a merged value is merged. -/
theorem Json.HasPart.merged {value part : Json} (h : value.HasPart part) (hvalue : value.Merged) :
    part.Merged := by
  cases h with
  | item hmem =>
    cases hvalue with
    | array hitems => exact hitems _ hmem
  | member hmem =>
    cases hvalue with
    | object _ hmembers => exact hmembers _ hmem

namespace Schema

/-- No discriminator of the schema maps a literal twice, nor does one of a member of its unions. -/
inductive MapsOnce : Schema → Prop
  | intro {schema : Schema}
    (hown : ∀ discriminator, schema.discriminator = some discriminator →
      discriminator.mapping.names.Nodup)
    (honeOf : ∀ members, schema.oneOf = some members → ∀ member ∈ members, MapsOnce member)
    (hanyOf : ∀ members, schema.anyOf = some members → ∀ member ∈ members, MapsOnce member) :
    MapsOnce schema

theorem mapsOnce_empty : MapsOnce {} :=
  .intro nofun nofun nofun

/-! ## Reading a field -/

/-- The schemas have the same unions and tell their members apart alike. -/
structure SameUnions (schema after : Schema) : Prop where
  discriminator : after.discriminator = schema.discriminator
  oneOf : after.oneOf = schema.oneOf
  anyOf : after.anyOf = schema.anyOf

variable {schema after : Schema} {name : String} {value : Json}

theorem MapsOnce.congr (h : MapsOnce schema) (hsame : SameUnions schema after) : MapsOnce after := by
  obtain ⟨hown, honeOf, hanyOf⟩ := h
  constructor
  · rwa [hsame.discriminator]
  · rwa [hsame.oneOf]
  · rwa [hsame.anyOf]

theorem sameUnions_of_map {α : Type} {decoded : Option α} {set : α → Schema}
    (h : decoded.map set = some after) (hset : ∀ x, SameUnions schema (set x)) :
    SameUnions schema after := by
  obtain ⟨x, -, rfl⟩ := Option.map_eq_some_iff.mp h
  exact hset x

theorem sameUnions_of_setField {α : Type} {decode : Json → Option α} {set : α → Schema}
    (h : setField schema decode set value = some after) (hset : ∀ x, SameUnions schema (set x)) :
    SameUnions schema after := by
  rw [setField.eq_def] at h
  split at h
  next =>
    obtain rfl := Option.some.inj h
    exact ⟨rfl, rfl, rfl⟩
  next => exact sameUnions_of_map h hset

/-- The fields that hold the members of unions and what tells them apart. -/
def unionFields : List String :=
  ["discriminator", "oneOf", "anyOf"]

/-- The other fields leave the unions of a schema as they are. -/
theorem sameUnions_of_readField (hother : name ∉ unionFields)
    (h : readField schema name value = some after) : SameUnions schema after := by
  have hsame : ∀ {other}, some schema = some other → SameUnions schema other := by
    rintro _ ⟨⟩
    exact ⟨rfl, rfl, rfl⟩
  rw [readField.eq_def] at h
  split at h
  all_goals first
    | exact absurd (by decide) hother
    | exact sameUnions_of_setField h fun _ => ⟨rfl, rfl, rfl⟩
    | exact hsame h
    | split at h
  -- What is left are the fields that hold schemas, each with the values that it admits.
  all_goals first
    | exact sameUnions_of_map h fun _ => ⟨rfl, rfl, rfl⟩
    | exact hsame h
    | (cases h <;> exact ⟨rfl, rfl, rfl⟩)

/-- Every field is read into a schema that maps once, if what is inside its value is read so. -/
theorem mapsOnce_of_readField (hvalue : value.Merged)
    (hparts : ∀ part, value.HasPart part → ReadsAs MapsOnce part) (hschema : MapsOnce schema)
    (h : readField schema name value = some after) : MapsOnce after := by
  by_cases hunion : name ∈ unionFields
  · obtain ⟨hmapping, hone, hany⟩ := id hschema
    simp only [unionFields, List.mem_cons, List.not_mem_nil, or_false] at hunion
    rcases hunion with rfl | rfl | rfl <;> rw [readField.eq_def] at h
    -- `discriminator`
    · refine of_setField hschema (fun discriminator _ hdiscriminator => ?_) h
      refine .intro ?_ hone hany
      rintro _ ⟨⟩
      exact Discriminator.nodup_of_ofJson? hvalue hdiscriminator
    -- `oneOf`
    · refine of_listed hschema hparts (fun members hmembers => ?_) h
      refine .intro hmapping ?_ hany
      rintro _ ⟨⟩
      exact hmembers
    -- `anyOf`
    · refine of_listed hschema hparts (fun members hmembers => ?_) h
      refine .intro hmapping hone ?_
      rintro _ ⟨⟩
      exact hmembers
  · exact hschema.congr (sameUnions_of_readField hunion h)

/-- **A schema that is read from a merged value** maps no literal twice. -/
theorem mapsOnce_of_ofJson? (hvalue : value.Merged) (h : ofJson? value = some schema) :
    MapsOnce schema :=
  (readsAs mapsOnce_empty (fun _ _ hpart => hpart.merged)
    (fun _ hvalue hparts _ _ _ => mapsOnce_of_readField hvalue hparts) value hvalue).whole h

end Schema

/-! ## Classifying -/

namespace Shape

variable {schema : Schema} {inner : InnerShapes} {kind : CompositionKind} {members : List Shape}
  {discriminator : Discriminator}

/-- The kind is not that of a composition with a discriminator. -/
def IsUndiscriminated (kind : ShapeKind) : Prop :=
  ∀ composition members discriminator, kind ≠ .composition composition members (some discriminator)

theorem isUndiscriminated_constantKind (value : Json) : IsUndiscriminated (constantKind value) := by
  cases value <;> nofun

theorem isUndiscriminated_ofEnumeration (schema : Schema) (values : List EnumValue) :
    IsUndiscriminated (ofEnumeration schema values).kind := by
  rw [ofEnumeration]
  dsimp only
  split <;> nofun

theorem isUndiscriminated_typeKind (schema : Schema) (inner : InnerShapes) (name : String) :
    IsUndiscriminated (typeKind schema inner name) := by
  rw [typeKind.eq_def]
  split <;> nofun

/-- A list of types makes a union, but none with a discriminator. -/
theorem isUndiscriminated_ofTypeNames (schema : Schema) (inner : InnerShapes) (names : List String) :
    IsUndiscriminated (ofTypeNames schema inner names).kind := by
  rw [ofTypeNames]
  dsimp only
  split
  · nofun
  · exact isUndiscriminated_typeKind schema inner _
  · nofun

theorem isUndiscriminated_hintedKind (schema : Schema) (inner : InnerShapes) :
    IsUndiscriminated (hintedKind schema inner) := by
  unfold hintedKind
  split
  · nofun
  · split <;> nofun

/-- Whose discriminator it is: that of the schema, or that of the member that stands for the union. -/
theorem ofUnion_cases {union : List Shape} {asked : CompositionKind}
    (h : (ofUnion schema asked union).kind = .composition kind members (some discriminator)) :
    schema.discriminator = some discriminator ∨
      ∃ only ∈ union, only.kind = .composition kind members (some discriminator) := by
  rw [ofUnion.eq_def] at h
  dsimp only at h
  split at h
  next only hkept _ =>
    have hmem : only ∈ union.filter fun member => !member.isNull := hkept ▸ List.mem_singleton_self only
    exact Or.inr ⟨only, List.mem_of_mem_filter hmem, h⟩
  next => exact Or.inl (ShapeKind.composition.inj h).2.2

/-- A schema with a discriminated union for its shape has the discriminator itself, or a member of its
union has it. -/
theorem classify_cases
    (h : (classify schema inner).kind = .composition kind members (some discriminator)) :
    schema.discriminator = some discriminator ∨
      ∃ union, (inner.oneOf = some union ∨ inner.anyOf = some union) ∧
        ∃ only ∈ union, only.kind = .composition kind members (some discriminator) := by
  rw [classify.eq_def] at h
  dsimp only at h
  -- One keyword after the other, in the order in which they count.
  split at h
  · cases h
  split at h
  · exact absurd h (isUndiscriminated_constantKind _ _ _ _)
  split at h
  · exact absurd h (isUndiscriminated_ofEnumeration _ _ _ _ _)
  split at h
  · cases h
  split at h
  next union hunion => exact (ofUnion_cases h).imp_right fun honly => ⟨union, Or.inl hunion, honly⟩
  split at h
  next union hunion => exact (ofUnion_cases h).imp_right fun honly => ⟨union, Or.inr hunion, honly⟩
  split at h
  · exact absurd h (isUndiscriminated_typeKind _ _ _ _ _ _)
  · exact absurd h (isUndiscriminated_ofTypeNames _ _ _ _ _ _)
  · exact absurd h (isUndiscriminated_hintedKind _ _ _ _ _)

/-- **The union that a schema describes** maps no literal twice. -/
theorem nodup_of_ofSchema (hschema : schema.MapsOnce)
    (h : (ofSchema schema).kind = .composition kind members (some discriminator)) :
    discriminator.mapping.names.Nodup := by
  induction hschema with
  | @intro schema hown _ _ ihOneOf ihAnyOf =>
    rw [ofSchema_eq] at h
    rcases classify_cases h with hsame | ⟨union, hunion, only, honly, hkind⟩
    · exact hown discriminator hsame
    · simp only [Schema.innerShapes, Option.map_eq_some_iff] at hunion
      obtain ⟨schemas, hschemas, rfl⟩ | ⟨schemas, hschemas, rfl⟩ := hunion
      · rw [ofSchemas_eq_map] at honly
        obtain ⟨member, hmember, rfl⟩ := List.mem_map.mp honly
        exact ihOneOf schemas hschemas member hmember hkind
      · rw [ofSchemas_eq_map] at honly
        obtain ⟨member, hmember, rfl⟩ := List.mem_map.mp honly
        exact ihAnyOf schemas hschemas member hmember hkind

end Shape

namespace Document

/-- **The unions of a document that was read** map no literal twice. -/
theorem WasRead.nodup_mapping {document : Document} (h : document.WasRead) {named : NamedShape}
    (hnamed : named ∈ document.namedShapes) {members : List Shape} {discriminator : Discriminator}
    (hunion : Binding.IsUnion named.shape members discriminator) :
    discriminator.mapping.names.Nodup := by
  obtain ⟨⟨name, schema⟩, hschema, rfl⟩ := List.mem_map.mp hnamed
  obtain ⟨kind, hkind, -⟩ := hunion
  obtain ⟨-, fields, hroot, hschemas⟩ := schemas?_of_ofJson h.ofJson
  rcases schemas?_cases (hroot ▸ h.merged) hschemas with hnil | ⟨written, hmerged, htable⟩
  · rw [hnil] at hschema
    cases hschema
  · obtain ⟨member, hmember, hread⟩ := exists_of_forall₂_right (Table.forall₂_of_tableOf? htable) hschema
    cases hmerged with
    | object _ hmembers =>
      exact Shape.nodup_of_ofSchema (Schema.mapsOnce_of_ofJson? (hmembers member hmember) hread.2) hkind

end Document

end ApiScribe
