import ApiScribe.Json.Value

/-!
# Schemas as they are written

A `Schema` records the keywords of a schema object that matter for types, each present or absent,
in the form in which the document gives them.  Nothing is interpreted here: a schema may well say
`$ref` and `type` at once, or list a type twice.  What a schema describes is decided where schemas
become shapes.
-/

namespace ApiScribe

/-- A value that an enumeration may list. -/
inductive EnumValue where
  | string (value : String)
  | integer (value : Int)
  | float (value : Binary64)
  | boolean (value : Bool)
  | null
deriving DecidableEq, Repr, Inhabited

/-- Equality of enumeration values: numbers of double precision are compared as numbers, and an
integer never equals one of them. -/
def EnumValue.same : EnumValue → EnumValue → Bool
  | .float x, .float y => x.sameNumber y
  | x, y => x == y

/-- Equality of lists of enumeration values, position by position. -/
def EnumValue.sameList : List EnumValue → List EnumValue → Bool
  | [], [] => true
  | x :: xs, y :: ys => x.same y && sameList xs ys
  | _, _ => false

/-- The `type` keyword: one name or a list of names. -/
inductive TypeKeyword where
  | single (name : String)
  | several (names : List String)
deriving DecidableEq, Repr, Inhabited

/-- The property that tells the members of a union apart, with the literals that the document
maps to members by name or pointer. -/
structure Discriminator where
  property : String
  mapping : Table String := []
deriving DecidableEq, Repr, Inhabited

mutual

/-- The `additionalProperties` keyword: a flag or a schema. -/
inductive AdditionalKeyword where
  | flag (allowed : Bool)
  | schema (values : Schema)

/-- The keywords of a schema object. -/
structure Schema where
  type : Option TypeKeyword := none
  ref : Option String := none
  properties : Option (List (String × Schema)) := none
  required : Option (List String) := none
  items : Option Schema := none
  enumeration : Option (List EnumValue) := none
  anyOf : Option (List Schema) := none
  oneOf : Option (List Schema) := none
  allOf : Option (List Schema) := none
  additional : Option AdditionalKeyword := none
  discriminator : Option Discriminator := none
  format : Option String := none
  const : Option Json := none
  nullable : Option Bool := none
  description : Option String := none

end

instance : Inhabited Schema := ⟨{}⟩

end ApiScribe
