import ApiScribe.Distinct
import ApiScribe.Schema.OfJson
import ApiScribe.Shape.Basic

/-!
# Classifying schemas

A schema becomes a shape in two steps.  First the schemas inside it become shapes; then
`Shape.classify` looks at the keywords of the schema itself and chooses the one kind that it is
of.  The second step is not recursive and holds the whole rule of precedence: a reference counts
before a constant, then come enumerations, compositions (`allOf` before `oneOf` before `anyOf`),
the `type` keyword, and last the hints that `properties`, `additionalProperties` and `items` give.

Null can be spelled in several ways, and all of them become the flag `nullable`: the keyword of
that name, a null among the values of an enumeration or the names of types, and a member of a
union that admits null alone.  What remains of a union with one member left is that member, unless
a discriminator asks for the union.
-/

namespace ApiScribe

/-- The shapes of the schemas inside a schema. -/
structure InnerShapes where
  properties : List (String × Shape) := []
  items : Option Shape := none
  additional : AdditionalValues := .unspecified
  anyOf : Option (List Shape) := none
  oneOf : Option (List Shape) := none
  allOf : Option (List Shape) := none

namespace Shape

/-- The shape kind of a constant; composite constants are not described. -/
def constantKind : Json → ShapeKind
  | .null => .constant .null
  | .boolean value => .constant (.boolean value)
  | .number value => .constant (EnumValue.ofNumber value)
  | .string value => .constant (.string value)
  | .array _ => .unknown
  | .object _ => .unknown

/-- The object that a schema describes. -/
def objectKind (schema : Schema) (inner : InnerShapes) : ShapeKind :=
  .object inner.properties (distinct (schema.required.getD [])) inner.additional

/-- The array that a schema describes; items about which nothing is said may be anything. -/
def arrayKind (inner : InnerShapes) : ShapeKind :=
  .array (inner.items.getD unknown)

/-- The kind that a type name stands for. -/
def typeKind (schema : Schema) (inner : InnerShapes) (name : String) : ShapeKind :=
  match name with
  | "string" => .primitive .string schema.format
  | "number" => .primitive .number schema.format
  | "integer" => .primitive .integer schema.format
  | "boolean" => .primitive .boolean schema.format
  | "null" => .primitive .null schema.format
  | "array" => arrayKind inner
  | "object" => objectKind schema inner
  | other => .unclassified other

/-- The shape of an enumeration.  Null among the values makes it nullable, and an enumeration of
nothing else is null itself. -/
def ofEnumeration (schema : Schema) (values : List EnumValue) : Shape :=
  let kept := values.filter fun value => value ≠ .null
  { kind := if kept.isEmpty then .primitive .null none else .enumeration kept
    nullable := schema.nullable == some true || kept.length < values.length
    description := schema.description }

/-- The shape of a union.  Members that admit null alone make it nullable, and a single remaining
member stands for the union unless a discriminator is given. -/
def ofUnion (schema : Schema) (kind : CompositionKind) (members : List Shape) : Shape :=
  let kept := members.filter fun member => !member.isNull
  let nullable := schema.nullable == some true || members.any isNull
  match kept, schema.discriminator with
  | [only], none =>
    { only with
      nullable := only.nullable || nullable
      description := schema.description.orElse fun _ => only.description }
  | _, discriminator =>
    { kind := .composition kind kept discriminator, nullable, description := schema.description }

/-- The shape of a schema with a list of type names. -/
def ofTypeNames (schema : Schema) (inner : InnerShapes) (names : List String) : Shape :=
  let kept := names.filter fun name => name ≠ "null"
  { kind := match kept with
      | [] => .primitive .null none
      | [name] => typeKind schema inner name
      | several =>
        .composition .anyOf (several.map fun name => { kind := typeKind schema inner name }) none
    nullable := schema.nullable == some true || kept.length < names.length
    description := schema.description }

/-- The kind that a schema without type names and without compositions hints at. -/
def hintedKind (schema : Schema) (inner : InnerShapes) : ShapeKind :=
  if schema.properties.isSome || schema.additional.isSome then objectKind schema inner
  else if schema.items.isSome then arrayKind inner
  else .unknown

/-- The shape of a schema, given the shapes of the schemas inside it. -/
def classify (schema : Schema) (inner : InnerShapes) : Shape :=
  let plain (kind : ShapeKind) : Shape :=
    { kind, nullable := schema.nullable == some true, description := schema.description }
  match schema.ref with
  | some pointer => plain (.reference pointer)
  | none =>
  match schema.const with
  | some value => plain (constantKind value)
  | none =>
  match schema.enumeration with
  | some values => ofEnumeration schema values
  | none =>
  match inner.allOf with
  | some members => plain (.composition .allOf members none)
  | none =>
  match inner.oneOf with
  | some members => ofUnion schema .oneOf members
  | none =>
  match inner.anyOf with
  | some members => ofUnion schema .anyOf members
  | none =>
  match schema.type with
  | some (.single name) => plain (typeKind schema inner name)
  | some (.several names) => ofTypeNames schema inner names
  | none => plain (hintedKind schema inner)

/-- Additional values of a shape; a shape that says nothing restricts nothing. -/
def additionalOf (values : Shape) : AdditionalValues :=
  if values.isUnrestricted then .unrestricted else .typed values

mutual

/-- The shape that a schema describes. -/
def ofSchema : Schema → Shape
  | ⟨type, ref, properties, required, items, enumeration, anyOf, oneOf, allOf, additional,
      discriminator, format, const, nullable, description⟩ =>
    classify
      ⟨type, ref, properties, required, items, enumeration, anyOf, oneOf, allOf, additional,
        discriminator, format, const, nullable, description⟩
      { properties := match properties with
          | some properties => ofNamedSchemas properties
          | none => []
        items := match items with
          | some items => some (ofSchema items)
          | none => none
        additional := match additional with
          | none => .unspecified
          | some (.flag true) => .unrestricted
          | some (.flag false) => .forbidden
          | some (.schema values) => additionalOf (ofSchema values)
        anyOf := match anyOf with
          | some members => some (ofSchemas members)
          | none => none
        oneOf := match oneOf with
          | some members => some (ofSchemas members)
          | none => none
        allOf := match allOf with
          | some members => some (ofSchemas members)
          | none => none }

/-- The shapes that schemas describe. -/
def ofSchemas : List Schema → List Shape
  | [] => []
  | schema :: rest => ofSchema schema :: ofSchemas rest

/-- The shapes that schemas under names describe. -/
def ofNamedSchemas : List (String × Schema) → List (String × Shape)
  | [] => []
  | (name, schema) :: rest => (name, ofSchema schema) :: ofNamedSchemas rest

end

/-- The shape of the schema that a value spells. -/
def ofJson? (value : Json) : Option Shape :=
  (Schema.ofJson? value).map ofSchema

end Shape

end ApiScribe
