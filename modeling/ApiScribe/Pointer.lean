import ApiScribe.CompileError
import ApiScribe.Number.Numeral
import ApiScribe.Shape.OfSchema
import ApiScribe.Text.Lines

/-!
# Pointers into a document

A reference that begins with `#` is a pointer: a sequence of steps from the root of the document,
each written after a slash.  In a step `~1` stands for a slash and `~0` for a tilde.  A step into
an object is the name of a member, and a step into an array is the number of an item.

Only such pointers are followed.  A pointer that is used as a type has exactly the steps
`components`, `schemas` and the name of a schema, and its name is then the name of the type.
-/

namespace ApiScribe.Pointer

/-- Where a reference leads. -/
def kindOf (reference : String) : ReferenceKind :=
  if Text.startsWith "#" reference then .internal
  else if Text.startsWith "http://" reference || Text.startsWith "https://" reference then .url
  else .externalFile

/-- The name that a written step stands for. -/
def unescape : List Char → List Char
  | '~' :: '1' :: cs => '/' :: unescape cs
  | '~' :: '0' :: cs => '~' :: unescape cs
  | c :: cs => c :: unescape cs
  | [] => []

/-- The steps of a pointer. -/
def steps (pointer : String) : Except CompileError (List String) :=
  match pointer.toList with
  | '#' :: fragment =>
    match fragment with
    | [] => .ok []
    | '/' :: path =>
      .ok ((Text.pieces (fun c => c = '/') path).map fun step => String.ofList (unescape step))
    | _ => .error (.invalidPointerPath pointer (String.ofList fragment))
  | _ => .error (.unsupportedReference pointer (kindOf pointer))

/-- Item numbers stay below this bound. -/
def indexBound : Nat := Nat.pow 2 64

/-- The value that steps lead to.  The pointer as a whole is only named in errors. -/
def descend (pointer : String) : Json → List String → Except CompileError Json
  | value, [] => .ok value
  | .object members, step :: rest =>
    match Table.get? members step with
    | some value => descend pointer value rest
    | none => .error (.pointerNotFound pointer)
  | .array items, step :: rest =>
    match Numeral.below? indexBound step.toList with
    | none => .error (.invalidPointerPath pointer step)
    | some index =>
      match items[index]? with
      | some value => descend pointer value rest
      | none => .error (.pointerNotFound pointer)
  | _, step :: _ => .error (.invalidPointerPath pointer step)

/-- The value that a pointer leads to. -/
def lookup (root : Json) (pointer : String) : Except CompileError Json := do
  descend pointer root (← steps pointer)

/-- The value that a pointer leads to, decoded. -/
def lookupAs {α : Type} (decode : Json → Option α) (root : Json) (pointer : String) :
    Except CompileError α := do
  match decode (← lookup root pointer) with
  | some target => .ok target
  | none => .error (.invalidTarget pointer)

/-- The shape of the schema that a pointer leads to. -/
def resolve (root : Json) (pointer : String) : Except CompileError Shape :=
  lookupAs Shape.ofJson? root pointer

/-- The shape that a reference leads to in one step; any other shape stands for itself. -/
def follow (root : Json) (shape : Shape) : Except CompileError Shape :=
  match shape.kind with
  | .reference pointer => resolve root pointer
  | _ => .ok shape

/-- The name of the schema that a pointer leads to. -/
def shapeName (root : Json) (pointer : String) : Except CompileError String := do
  match ← steps pointer with
  | [components, schemas, name] =>
    if components = "components" ∧ schemas = "schemas" then do
      let _ ← lookup root pointer
      .ok name
    else .error (.unsupportedPointerShape pointer)
  | _ => .error (.unsupportedPointerShape pointer)

end ApiScribe.Pointer
