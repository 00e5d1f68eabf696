import ApiScribe.Number.Decimal
import ApiScribe.Table

/-!
# JSON values

A document is a tree of JSON values.  The members of an object are a table, since their order
decides the order of everything that is generated.  A numeral without point and exponent is an
integer as long as it fits 64 bits, and every other numeral is a number of double precision.
-/

namespace ApiScribe

/-- The two kinds of numbers of a document. -/
inductive JsonNumber where
  | integer (value : Int)
  | binary (value : Binary64)
deriving DecidableEq, Repr, Inhabited

/-- A JSON value. -/
inductive Json where
  | null
  | boolean (value : Bool)
  | number (value : JsonNumber)
  | string (value : String)
  | array (items : List Json)
  | object (members : List (String × Json))
deriving Repr, Inhabited

namespace Json

/-- The member of an object with a given name. -/
def member? : Json → String → Option Json
  | .object members, name => Table.get? members name
  | _, _ => none

/-- The text of a string. -/
def string? : Json → Option String
  | .string text => some text
  | _ => none

/-- Is the value an object? -/
def isObject : Json → Bool
  | .object _ => true
  | _ => false

end Json

end ApiScribe
