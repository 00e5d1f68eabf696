import ApiScribe.Json.Value

/-!
# Records in JSON

A record is written as an object with named fields, of which unknown ones are ignored, or as an
array of all its fields in a fixed order, where only the last fields may be missing and only if
they have defaults.  `record?` brings both to a table of fields; the other readers take one field
out of the table and decode it.

Every reader answers `none` when the value has the wrong form.
-/

namespace ApiScribe.Json

/-- The fields of a record with the given field names, at least the first `least` of which an
array has to list. -/
def record? (fields : List String) (least : Nat) : Json → Option (Table Json)
  | .object members => some members
  | .array items =>
    if least ≤ items.length ∧ items.length ≤ fields.length then some (fields.zip items) else none
  | _ => none

/-- A list, each item decoded. -/
def listOf? {α : Type} (decode : Json → Option α) : Json → Option (List α)
  | .array items => items.mapM decode
  | _ => none

/-- A table, each value decoded. -/
def tableOf? {α : Type} (decode : Json → Option α) : Json → Option (Table α)
  | .object members => members.mapM fun member => (decode member.2).map fun x => (member.1, x)
  | _ => none

/-- A flag. -/
def boolean? : Json → Option Bool
  | .boolean value => some value
  | _ => none

/-- A field that may be absent or null. -/
def optionalField? {α : Type} (fields : Table Json) (name : String) (decode : Json → Option α) :
    Option (Option α) :=
  match fields.get? name with
  | none => some none
  | some .null => some none
  | some value => (decode value).map some

/-- A field that has to be there. -/
def requiredField? {α : Type} (fields : Table Json) (name : String) (decode : Json → Option α) :
    Option α :=
  (fields.get? name).bind decode

/-- A field that may be absent but not null. -/
def defaultField? {α : Type} (fields : Table Json) (name : String) (default : α)
    (decode : Json → Option α) : Option α :=
  match fields.get? name with
  | none => some default
  | some value => decode value

end ApiScribe.Json
