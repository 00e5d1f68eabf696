import ApiScribe.Json.Record
import ApiScribe.Schema.Basic

/-!
# Reading schemas

A schema is a record of fifteen optional fields.  Since schemas contain schemas, the reader goes
down the value itself: the members of an object are read one after the other into the schema
collected so far, and an array is read in the order of `Schema.fieldNames`.  A field that is null
counts as absent, and a member with another name is ignored.
-/

namespace ApiScribe

namespace EnumValue

/-- The integers that are kept as such. -/
def isInteger64 (value : Int) : Bool :=
  -(Int.pow 2 63) ≤ value && value < Int.pow 2 63

/-- The value of a number; an integer beyond 63 bits is kept in double precision. -/
def ofNumber : JsonNumber → EnumValue
  | .integer value =>
    if isInteger64 value then .integer value
    else
      let size := Binary64.ofNat value.natAbs
      .float (if value < 0 then size.neg else size)
  | .binary value => .float value

/-- The value of a scalar. -/
def ofJson? : Json → Option EnumValue
  | .null => some .null
  | .boolean value => some (.boolean value)
  | .number value => some (ofNumber value)
  | .string value => some (.string value)
  | .array _ => none
  | .object _ => none

end EnumValue

/-- A name or a list of names. -/
def TypeKeyword.ofJson? : Json → Option TypeKeyword
  | .string name => some (.single name)
  | .array items => (items.mapM Json.string?).map .several
  | _ => none

/-- A property name with an optional mapping. -/
def Discriminator.ofJson? (value : Json) : Option Discriminator := do
  let fields ← value.record? ["propertyName", "mapping"] 2
  let property ← Json.requiredField? fields "propertyName" Json.string?
  let mapping ← Json.optionalField? fields "mapping" (Json.tableOf? Json.string?)
  pure { property, mapping := mapping.getD [] }

namespace Schema

/-- The order of the fields in a schema that is written as an array. -/
def fieldNames : List String :=
  ["type", "$ref", "properties", "required", "items", "enum", "anyOf", "oneOf", "allOf",
    "additionalProperties", "discriminator", "format", "const", "nullable", "description"]

/-- A schema with a field set to a decoded value; null leaves it absent. -/
def setField {α : Type} (schema : Schema) (decode : Json → Option α) (set : α → Schema) :
    Json → Option Schema
  | .null => some schema
  | value => (decode value).map set

mutual

/-- The schema that a value spells. -/
def ofJson? : Json → Option Schema
  | .object members => readMembers {} members
  | .array items => readItems {} fieldNames items
  | _ => none

/-- Read the members of an object into a schema. -/
def readMembers (schema : Schema) : List (String × Json) → Option Schema
  | [] => some schema
  | (name, value) :: rest =>
    match readField schema name value with
    | some schema => readMembers schema rest
    | none => none

/-- Read the items of an array into the fields with the given names, one item for each. -/
def readItems (schema : Schema) (names : List String) : List Json → Option Schema
  | [] => if names.isEmpty then some schema else none
  | value :: rest =>
    match names with
    | [] => none
    | name :: names =>
      match readField schema name value with
      | some schema => readItems schema names rest
      | none => none

/-- Read one field into a schema. -/
def readField (schema : Schema) (name : String) (value : Json) : Option Schema :=
  match name with
  | "type" => setField schema TypeKeyword.ofJson? (fun x => { schema with type := some x }) value
  | "$ref" => setField schema Json.string? (fun x => { schema with ref := some x }) value
  | "properties" =>
    match value with
    | .null => some schema
    | .object members =>
      (ofMembers? members).map fun x => { schema with properties := some x }
    | _ => none
  | "required" =>
    setField schema (Json.listOf? Json.string?) (fun x => { schema with required := some x }) value
  | "items" =>
    match value with
    | .null => some schema
    | .object members =>
      (readMembers {} members).map fun x => { schema with items := some x }
    | .array items =>
      (readItems {} fieldNames items).map fun x => { schema with items := some x }
    | _ => none
  | "enum" =>
    setField schema (Json.listOf? EnumValue.ofJson?)
      (fun x => { schema with enumeration := some x }) value
  | "anyOf" =>
    match value with
    | .null => some schema
    | .array items => (ofItems? items).map fun x => { schema with anyOf := some x }
    | _ => none
  | "oneOf" =>
    match value with
    | .null => some schema
    | .array items => (ofItems? items).map fun x => { schema with oneOf := some x }
    | _ => none
  | "allOf" =>
    match value with
    | .null => some schema
    | .array items => (ofItems? items).map fun x => { schema with allOf := some x }
    | _ => none
  | "additionalProperties" =>
    match value with
    | .null => some schema
    | .boolean allowed => some { schema with additional := some (.flag allowed) }
    | .object members =>
      (readMembers {} members).map fun x => { schema with additional := some (.schema x) }
    | .array items =>
      (readItems {} fieldNames items).map fun x => { schema with additional := some (.schema x) }
    | _ => none
  | "discriminator" =>
    setField schema Discriminator.ofJson? (fun x => { schema with discriminator := some x }) value
  | "format" => setField schema Json.string? (fun x => { schema with format := some x }) value
  | "const" => setField schema some (fun x => { schema with const := some x }) value
  | "nullable" => setField schema Json.boolean? (fun x => { schema with nullable := some x }) value
  | "description" =>
    setField schema Json.string? (fun x => { schema with description := some x }) value
  | _ => some schema

/-- Schemas in a list. -/
def ofItems? : List Json → Option (List Schema)
  | [] => some []
  | value :: rest =>
    match ofJson? value, ofItems? rest with
    | some schema, some schemas => some (schema :: schemas)
    | _, _ => none

/-- Schemas under names. -/
def ofMembers? : List (String × Json) → Option (List (String × Schema))
  | [] => some []
  | (name, value) :: rest =>
    match ofJson? value, ofMembers? rest with
    | some schema, some schemas => some ((name, schema) :: schemas)
    | _, _ => none

end

end Schema

end ApiScribe
