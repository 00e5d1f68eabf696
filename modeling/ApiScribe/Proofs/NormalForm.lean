import ApiScribe.Proofs.SchemaReading
import ApiScribe.Proofs.SchemaShapes
import ApiScribe.Proofs.ShapeReferences

/-!
# The normal form of shapes

Classifying leaves less to look out for than schemas do.  `ShapeKind.IsNormal` says what a shape is not:
an enumeration lists something, and null is not among its values; a union has no member for null alone,
and not a single member unless its discriminator asks for it; only unions have a discriminator; and
additional values that may be anything are not given a type.

`classify_everywhere` is the step: where the shapes inside a schema are in this form, at any depth, the
shape of the schema is, whichever keyword decides.  The induction over schemas (`Schema.induct`) makes
it a statement about every shape that classifying gives.

There is one exception: a constant null.  A schema could hold one, but none that is read does, because
null counts as an absent field there (`Schema.noNullConstant_of_ofJson?`).
-/

namespace ApiScribe

/-! ## Shapes in a shape -/

/-- The kind is one that classifying leaves. -/
def ShapeKind.IsNormal : ShapeKind → Prop
  | .enumeration values => values ≠ [] ∧ EnumValue.null ∉ values
  | .constant value => value ≠ .null
  | .composition .allOf _ discriminator => discriminator = none
  | .composition _ members discriminator =>
    (∀ member ∈ members, member.isNull = false) ∧ (members.length = 1 → discriminator ≠ none)
  | .object _ _ additional => ∀ values, additional = .typed values → values.isUnrestricted = false
  | _ => True

/-- A shape occurs in another one: it is the shape itself, or occurs in a part of it. -/
inductive Shape.OccursIn (node : Shape) : Shape → Prop
  | whole : OccursIn node node
  | inside {shape part : Shape} (hpart : shape.kind.HasPart part) (h : OccursIn node part) :
    OccursIn node shape

/-- A schema occurs in another one. -/
inductive Schema.OccursIn (node : Schema) : Schema → Prop
  | whole : OccursIn node node
  | inside {schema part : Schema} (hpart : schema.HasPart part) (h : OccursIn node part) :
    OccursIn node schema

/-- All shapes that occur in the shape are of kinds with the property. -/
def Shape.Everywhere (P : ShapeKind → Prop) (shape : Shape) : Prop :=
  ∀ node : Shape, node.OccursIn shape → P node.kind

/-- A shape of the kind has the property, and so has everything in it. -/
def ShapeKind.Everywhere (P : ShapeKind → Prop) (kind : ShapeKind) : Prop :=
  P kind ∧ ∀ part, kind.HasPart part → part.Everywhere P

variable {P : ShapeKind → Prop}

theorem Shape.everywhere_iff {shape : Shape} : shape.Everywhere P ↔ shape.kind.Everywhere P := by
  constructor
  · intro h
    exact ⟨h shape .whole, fun part hpart node hnode => h node (.inside hpart hnode)⟩
  · rintro ⟨hkind, hparts⟩ node hnode
    cases hnode with
    | whole => exact hkind
    | inside hpart hnode => exact hparts _ hpart node hnode

theorem Shape.Everywhere.mono {Q : ShapeKind → Prop} {shape : Shape} (h : shape.Everywhere P)
    (himp : ∀ kind, P kind → Q kind) : shape.Everywhere Q :=
  fun node hnode => himp node.kind (h node hnode)

/-- The shapes inside a schema have the property everywhere, and additional values are restricted. -/
structure InnerShapes.Everywhere (P : ShapeKind → Prop) (inner : InnerShapes) : Prop where
  properties : ∀ entry ∈ inner.properties, entry.2.Everywhere P
  items : ∀ items, inner.items = some items → items.Everywhere P
  values : ∀ values, inner.additional = .typed values →
    values.Everywhere P ∧ values.isUnrestricted = false
  anyOf : ∀ members, inner.anyOf = some members → ∀ member ∈ members, member.Everywhere P
  oneOf : ∀ members, inner.oneOf = some members → ∀ member ∈ members, member.Everywhere P
  allOf : ∀ members, inner.allOf = some members → ∀ member ∈ members, member.Everywhere P

namespace Shape

/-! ## Classifying -/

/-- Only the type name of null stands for null. -/
theorem isNull_typeKind (schema : Schema) (inner : InnerShapes) {name : String} (h : name ≠ "null") :
    isNull { kind := typeKind schema inner name } = false := by
  rw [typeKind.eq_def]
  split
  all_goals first
    | exact absurd rfl h
    | rfl

section Classify

variable (hP : ∀ kind : ShapeKind, kind.IsNormal → P kind) {inner : InnerShapes}
  (hinner : inner.Everywhere P)
include hP

theorem everywhere_unknown : ShapeKind.unknown.Everywhere P :=
  ⟨hP _ trivial, nofun⟩

theorem everywhere_composition {kind : CompositionKind} {members : List Shape}
    {discriminator : Option Discriminator}
    (h : (ShapeKind.composition kind members discriminator).IsNormal)
    (hmembers : ∀ member ∈ members, member.Everywhere P) :
    (ShapeKind.composition kind members discriminator).Everywhere P := by
  refine ⟨hP _ h, fun part hpart => ?_⟩
  cases hpart with
  | member hmem => exact hmembers part hmem

/-- **An enumeration** lists something besides null, or is null itself. -/
theorem everywhere_ofEnumeration (schema : Schema) (values : List EnumValue) :
    (ofEnumeration schema values).kind.Everywhere P := by
  rw [ofEnumeration]
  dsimp only
  split
  next => exact ⟨hP _ trivial, nofun⟩
  next hkept =>
    refine ⟨hP _ ⟨fun hnil => hkept (List.isEmpty_iff.mpr hnil), fun hnull => ?_⟩, nofun⟩
    exact of_decide_eq_true (List.mem_filter.mp hnull).2 rfl

/-- **A union** has no member for null, and a single member stands for it unless there is a
discriminator. -/
theorem everywhere_ofUnion (schema : Schema) {kind : CompositionKind} (hkind : kind ≠ .allOf)
    {members : List Shape} (hmembers : ∀ member ∈ members, member.Everywhere P) :
    (ofUnion schema kind members).kind.Everywhere P := by
  have hkept : ∀ member ∈ members.filter fun member => !member.isNull,
      member.Everywhere P ∧ member.isNull = false := by
    intro member hmem
    obtain ⟨hmem, hnull⟩ := List.mem_filter.mp hmem
    exact ⟨hmembers member hmem, Bool.not_eq_true' _ ▸ hnull⟩
  rw [ofUnion]
  generalize (members.filter fun member => !member.isNull) = kept at hkept
  split
  next only _ =>
    have honly : only.kind.Everywhere P :=
      everywhere_iff.mp (hkept only (List.mem_singleton_self only)).1
    exact honly
  next kept _ _ hsingle =>
    refine everywhere_composition hP ?_ fun member hmem => (hkept member hmem).1
    have hnormal : (∀ member ∈ kept, member.isNull = false) ∧
        (kept.length = 1 → schema.discriminator ≠ none) := by
      refine ⟨fun member hmem => (hkept member hmem).2, fun hlength hnone => ?_⟩
      obtain ⟨only, rfl⟩ := List.length_eq_one_iff.mp hlength
      exact hsingle only rfl hnone
    cases kind with
    | allOf => exact absurd rfl hkind
    | oneOf => exact hnormal
    | anyOf => exact hnormal

include hinner

theorem everywhere_arrayKind : (arrayKind inner).Everywhere P := by
  refine ⟨hP _ trivial, fun part hpart => ?_⟩
  rw [arrayKind] at hpart
  cases hpart
  cases hitems : inner.items with
  | none => exact everywhere_iff.mpr (everywhere_unknown hP)
  | some items => exact hinner.items items hitems

theorem everywhere_objectKind (schema : Schema) : (objectKind schema inner).Everywhere P := by
  refine ⟨hP _ fun values hvalues => (hinner.values values hvalues).2, fun part hpart => ?_⟩
  rw [objectKind] at hpart
  generalize hadditional : inner.additional = additional at hpart
  cases hpart with
  | property hmem => exact hinner.properties _ hmem
  | values => exact (hinner.values part hadditional).1

/-- A type name stands for a normal kind. -/
theorem everywhere_typeKind (schema : Schema) (name : String) :
    (typeKind schema inner name).Everywhere P := by
  rw [typeKind.eq_def]
  split
  all_goals first
    | exact everywhere_arrayKind hP hinner
    | exact everywhere_objectKind hP hinner schema
    | exact ⟨hP _ trivial, nofun⟩

/-- **A list of type names** is a union without null if there are several. -/
theorem everywhere_ofTypeNames (schema : Schema) (names : List String) :
    (ofTypeNames schema inner names).kind.Everywhere P := by
  have hkept : ∀ name ∈ names.filter fun name => name ≠ "null", name ≠ "null" :=
    fun name hmem => of_decide_eq_true (List.mem_filter.mp hmem).2
  rw [ofTypeNames]
  dsimp only
  generalize (names.filter fun name => name ≠ "null") = kept at hkept
  split
  next => exact ⟨hP _ trivial, nofun⟩
  next name => exact everywhere_typeKind hP hinner schema name
  next several hne hsingle =>
    refine everywhere_composition hP ⟨?_, ?_⟩ ?_
    · intro member hmem
      obtain ⟨name, hname, rfl⟩ := List.mem_map.mp hmem
      exact isNull_typeKind schema inner (hkept name hname)
    · intro hlength
      rw [List.length_map] at hlength
      obtain ⟨name, rfl⟩ := List.length_eq_one_iff.mp hlength
      exact absurd rfl (hsingle name)
    · intro member hmem
      obtain ⟨name, -, rfl⟩ := List.mem_map.mp hmem
      exact everywhere_iff.mpr (everywhere_typeKind hP hinner schema name)

theorem everywhere_hintedKind (schema : Schema) : (hintedKind schema inner).Everywhere P := by
  unfold hintedKind
  split
  · exact everywhere_objectKind hP hinner schema
  · split
    · exact everywhere_arrayKind hP hinner
    · exact everywhere_unknown hP

/-- **What classifying makes** of shapes with the property, if it holds of normal kinds and of the
constant that the schema may have. -/
theorem classify_everywhere {schema : Schema}
    (hconst : ∀ value, schema.const = some value → P (constantKind value)) :
    (classify schema inner).kind.Everywhere P := by
  have honeOf : CompositionKind.oneOf ≠ .allOf := nofun
  have hanyOf : CompositionKind.anyOf ≠ .allOf := nofun
  rw [classify.eq_def]
  dsimp only
  -- One keyword after the other, in the order in which they count.
  split
  next => exact ⟨hP _ trivial, nofun⟩
  split
  next value hvalue =>
    refine ⟨hconst value hvalue, fun part hpart => ?_⟩
    cases value <;> cases hpart
  split
  next => exact everywhere_ofEnumeration hP schema _
  split
  next members hmembers =>
    exact everywhere_composition hP rfl (hinner.allOf members hmembers)
  split
  next members hmembers => exact everywhere_ofUnion hP schema honeOf (hinner.oneOf members hmembers)
  split
  next members hmembers => exact everywhere_ofUnion hP schema hanyOf (hinner.anyOf members hmembers)
  split
  next => exact everywhere_typeKind hP hinner schema _
  next => exact everywhere_ofTypeNames hP hinner schema _
  next => exact everywhere_hintedKind hP hinner schema

end Classify

/-! ## Schemas -/

theorem eq_of_additionalOf {values part : Shape} (h : additionalOf values = .typed part) :
    part = values ∧ part.isUnrestricted = false := by
  rw [additionalOf] at h
  split at h
  next => cases h
  next hrestricted =>
    cases h
    exact ⟨rfl, Bool.eq_false_of_not_eq_true hrestricted⟩

/-- The shapes of the schemas inside a schema have what the parts of the schema have. -/
theorem innerShapes_everywhere {schema : Schema}
    (h : ∀ part, schema.HasPart part → (ofSchema part).Everywhere P) :
    schema.innerShapes.Everywhere P := by
  -- The three lists of members differ only in the keyword.
  have hmembers : ∀ {field : Option (List Schema)},
      (∀ {schemas part}, field = some schemas → part ∈ schemas → schema.HasPart part) →
      ∀ members, field.map ofSchemas = some members → ∀ member ∈ members, member.Everywhere P := by
    intro field hfield members heq member hmem
    obtain ⟨schemas, hschemas, rfl⟩ := Option.map_eq_some_iff.mp heq
    rw [ofSchemas_eq_map] at hmem
    obtain ⟨part, hpart, rfl⟩ := List.mem_map.mp hmem
    exact h part (hfield hschemas hpart)
  refine ⟨?_, ?_, ?_, hmembers .anyOf, hmembers .oneOf, hmembers .allOf⟩
  · intro entry hmem
    rw [Schema.innerShapes] at hmem
    dsimp only at hmem
    cases hproperties : schema.properties with
    | none =>
      rw [hproperties] at hmem
      exact absurd hmem List.not_mem_nil
    | some entries =>
      rw [hproperties, Option.map_some, Option.getD_some, ofNamedSchemas_eq_map] at hmem
      obtain ⟨entry, hentry, rfl⟩ := List.mem_map.mp hmem
      exact h entry.2 (.property hproperties hentry)
  · intro items heq
    obtain ⟨items, hitems, rfl⟩ := Option.map_eq_some_iff.mp heq
    exact h items (.items hitems)
  · intro part heq
    rw [Schema.innerShapes] at heq
    dsimp only at heq
    cases hadditional : schema.additional with
    | none =>
      rw [hadditional] at heq
      cases heq
    | some keyword =>
      rw [hadditional, Option.map_some, Option.getD_some] at heq
      cases keyword with
      | flag allowed => cases allowed <;> cases heq
      | schema values =>
        obtain ⟨rfl, hrestricted⟩ := eq_of_additionalOf heq
        exact ⟨h values (.values hadditional), hrestricted⟩

/-- A constant that is not null is described, or not at all. -/
theorem isNormal_constantKind {value : Json} (h : value ≠ .null) : (constantKind value).IsNormal := by
  cases value with
  | null => exact absurd rfl h
  | number value =>
    rw [constantKind, ShapeKind.IsNormal, EnumValue.ofNumber.eq_def]
    split
    next => split <;> nofun
    next => nofun
  | boolean | string => nofun
  | array | object => trivial

/-- **Normal form**, with the exception: where a shape is a constant null, a schema says so. -/
theorem ofSchema_everywhere (schema : Schema) :
    (ofSchema schema).Everywhere fun kind =>
      kind.IsNormal ∨
        kind = .constant .null ∧ ∃ inner : Schema, inner.OccursIn schema ∧ inner.const = some .null := by
  induction schema using Schema.induct with
  | h schema ih =>
    rw [ofSchema_eq, everywhere_iff]
    refine classify_everywhere (fun kind hkind => Or.inl hkind) ?_ ?_
    · refine innerShapes_everywhere fun part hpart => (ih part hpart).mono fun kind hkind => ?_
      exact hkind.imp_right fun ⟨heq, inner, hinner, hconst⟩ => ⟨heq, inner, .inside hpart hinner, hconst⟩
    · intro value hvalue
      rcases eq_or_ne value .null with rfl | hne
      · exact Or.inr ⟨rfl, schema, .whole, hvalue⟩
      · exact Or.inl (isNormal_constantKind hne)

end Shape

/-! ## Schemas that are read -/

namespace Schema

/-- Neither the schema nor one inside it is the constant null. -/
inductive NoNullConstant : Schema → Prop
  | intro {schema : Schema} (hconst : schema.const ≠ some .null)
    (hproperties : ∀ entries, schema.properties = some entries →
      ∀ entry ∈ entries, NoNullConstant entry.2)
    (hitems : ∀ items, schema.items = some items → NoNullConstant items)
    (hvalues : ∀ values, schema.additional = some (.schema values) → NoNullConstant values)
    (hanyOf : ∀ members, schema.anyOf = some members → ∀ member ∈ members, NoNullConstant member)
    (honeOf : ∀ members, schema.oneOf = some members → ∀ member ∈ members, NoNullConstant member)
    (hallOf : ∀ members, schema.allOf = some members → ∀ member ∈ members, NoNullConstant member) :
    NoNullConstant schema

theorem noNullConstant_empty : NoNullConstant {} :=
  .intro nofun nofun nofun nofun nofun nofun nofun

theorem NoNullConstant.const_ne {schema inner : Schema} (h : NoNullConstant schema)
    (hinner : inner.OccursIn schema) : inner.const ≠ some .null := by
  induction hinner with
  | whole =>
    obtain ⟨hconst, -⟩ := h
    exact hconst
  | inside hpart _ ih =>
    obtain ⟨-, hproperties, hitems, hvalues, hanyOf, honeOf, hallOf⟩ := h
    cases hpart with
    | property h hmem => exact ih (hproperties _ h _ hmem)
    | items h => exact ih (hitems _ h)
    | values h => exact ih (hvalues _ h)
    | anyOf h hmem => exact ih (hanyOf _ h _ hmem)
    | oneOf h hmem => exact ih (honeOf _ h _ hmem)
    | allOf h hmem => exact ih (hallOf _ h _ hmem)

/-- The fields that hold schemas, and the one that holds a constant. -/
def innerFields : List String :=
  ["properties", "items", "anyOf", "oneOf", "allOf", "additionalProperties", "const"]

/-- The other fields leave what is inside a schema as it is. -/
theorem noNullConstant_of_otherField {schema after : Schema} {name : String} {value : Json}
    (hother : name ∉ innerFields) (hschema : NoNullConstant schema)
    (h : readField schema name value = some after) : NoNullConstant after := by
  obtain ⟨hconst, hproperties, hitems, hvalues, hanyOf, honeOf, hallOf⟩ := id hschema
  rw [readField.eq_def] at h
  split at h
  all_goals first
    | exact absurd (by decide) hother
    | exact Option.some.inj h ▸ hschema
    | (refine of_setField hschema (fun _ _ _ => ?_) h
       exact .intro hconst hproperties hitems hvalues hanyOf honeOf hallOf)

/-- No field is read as the constant null: null leaves the field for the constant absent. -/
theorem noNullConstant_of_readField {schema after : Schema} {name : String} {value : Json}
    (hschema : NoNullConstant schema)
    (hparts : ∀ part, value.HasPart part → ReadsAs NoNullConstant part)
    (h : readField schema name value = some after) : NoNullConstant after := by
  by_cases hinner : name ∈ innerFields
  · obtain ⟨hconst, hproperties, hitems, hvalues, hanyOf, honeOf, hallOf⟩ := id hschema
    simp only [innerFields, List.mem_cons, List.not_mem_nil, or_false] at hinner
    rcases hinner with rfl | rfl | rfl | rfl | rfl | rfl | rfl <;> rw [readField.eq_def] at h
    -- `properties`
    · refine of_named hschema h hparts fun entries hentries => ?_
      refine .intro hconst ?_ hitems hvalues hanyOf honeOf hallOf
      rintro _ ⟨⟩
      exact hentries
    -- `items`
    · refine of_single noNullConstant_empty hschema h hparts fun items hread => ?_
      refine .intro hconst hproperties ?_ hvalues hanyOf honeOf hallOf
      rintro _ ⟨⟩
      exact hread
    -- `anyOf`
    · refine of_listed hschema hparts (fun members hmembers => ?_) h
      refine .intro hconst hproperties hitems hvalues ?_ honeOf hallOf
      rintro _ ⟨⟩
      exact hmembers
    -- `oneOf`
    · refine of_listed hschema hparts (fun members hmembers => ?_) h
      refine .intro hconst hproperties hitems hvalues hanyOf ?_ hallOf
      rintro _ ⟨⟩
      exact hmembers
    -- `allOf`
    · refine of_listed hschema hparts (fun members hmembers => ?_) h
      refine .intro hconst hproperties hitems hvalues hanyOf honeOf ?_
      rintro _ ⟨⟩
      exact hmembers
    -- `additionalProperties`
    · refine of_singleOrFlag noNullConstant_empty hschema h hparts (fun values hread => ?_) ?_
      · refine .intro hconst hproperties hitems ?_ hanyOf honeOf hallOf
        rintro _ ⟨⟩
        exact hread
      · exact fun _ => .intro hconst hproperties hitems nofun hanyOf honeOf hallOf
    -- `const`
    · refine of_setField hschema (fun constant hne hconstant => ?_) h
      cases hconstant
      refine .intro ?_ hproperties hitems hvalues hanyOf honeOf hallOf
      rintro ⟨⟩
      exact hne rfl
  · exact noNullConstant_of_otherField hinner hschema h

/-- **A schema that is read** has no constant null in it. -/
theorem noNullConstant_of_ofJson? {schema : Schema} {value : Json} (h : ofJson? value = some schema) :
    NoNullConstant schema := by
  have hreads : ReadsAs NoNullConstant value :=
    readsAs noNullConstant_empty (fun _ _ _ _ => trivial)
      (fun value _ hparts _ _ _ hschema h => noNullConstant_of_readField hschema hparts h) value trivial
  exact hreads.whole h

end Schema

namespace Shape

/-- **Classifying gives a normal form**, at every depth.  The one exception is a constant null, for which
a schema must hold one; no schema that is read does. -/
theorem ofSchema_normal (schema : Schema) :
    (∀ node : Shape, node.OccursIn (ofSchema schema) →
      node.kind.IsNormal ∨
        node.kind = .constant .null ∧
          ∃ inner : Schema, inner.OccursIn schema ∧ inner.const = some .null) ∧
    ∀ value : Json, Schema.ofJson? value = some schema →
      ∀ node : Shape, node.OccursIn (ofSchema schema) → node.kind.IsNormal := by
  refine ⟨ofSchema_everywhere schema, fun value hread node hnode => ?_⟩
  rcases ofSchema_everywhere schema node hnode with hnormal | ⟨-, inner, hinner, hnull⟩
  · exact hnormal
  · exact absurd hnull ((Schema.noNullConstant_of_ofJson? hread).const_ne hinner)

/-- Tags, each of which is one of two texts or null, by an enumeration that also has null for its
constant. -/
def tagList : Json :=
  .object
    [("type", .string "array"),
      ("items", .object
        [("const", .null),
          ("anyOf", .array
            [.object [("enum", .array [.string "new", .null, .string "used"])],
              .object [("type", .array [.string "null"])]])])]

theorem ofSchema_normal_tagList :
    ∃ schema : Schema, Schema.ofJson? tagList = some schema ∧
      ∃ tag : Shape, tag.OccursIn (ofSchema schema) ∧
        tag.kind = .enumeration [.string "new", .string "used"] ∧ tag.nullable = true ∧
        tag.kind.IsNormal := by
  have hread : ∃ schema, Schema.ofJson? tagList = some schema ∧
      (ofSchema schema).kind =
        .array ⟨.enumeration [.string "new", .string "used"], true, none⟩ := ⟨_, rfl, rfl⟩
  obtain ⟨schema, hschema, hkind⟩ := hread
  have htag : Shape.OccursIn ⟨.enumeration [.string "new", .string "used"], true, none⟩
      (ofSchema schema) := .inside (hkind ▸ .items _) .whole
  exact ⟨schema, hschema, _, htag, rfl, rfl, (ofSchema_normal schema).2 tagList hschema _ htag⟩

end Shape

end ApiScribe
