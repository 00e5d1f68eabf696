import ApiScribe.Document.Basic

/-!
# Discriminated unions

A named union with a discriminator binds every shape that it refers to: the discriminating
property of that shape holds one literal.  The literal is the first one that the union maps to the
shape, and the shape's name in small letters when the union maps none.  A shape may be bound
several times, but only to the same literal of the same property.
-/

namespace ApiScribe

/-- A property of a shape that holds one literal. -/
structure Binding where
  property : String
  literal : String
deriving DecidableEq, Repr, Inhabited

namespace Binding

/-- The binding in messages. -/
def text (binding : Binding) : String :=
  binding.property ++ " = '" ++ binding.literal ++ "'"

/-- Does a mapping name its target by a pointer, rather than by the name of a schema? -/
def isPointer (target : String) : Bool :=
  target.toList.any fun c => c = '#' || c = '/' || c = '.' || c = ':'

/-- The pointer for the target of a mapping. -/
def targetPointer (target : String) : String :=
  if isPointer target then target else "#/components/schemas/" ++ target

/-- The literals of a mapping, each with the name of the shape that it stands for. -/
def mappedLiterals (root : Json) :
    List (String × String) → Except CompileError (List (String × String))
  | [] => .ok []
  | (literal, target) :: rest => do
    let name ← Pointer.shapeName root (targetPointer target)
    let others ← mappedLiterals root rest
    .ok ((literal, name) :: others)

/-- The literal for a variant: the first one mapped to it, or its name in small letters. -/
def literalFor (mapped : List (String × String)) (variant : String) : String :=
  match mapped.find? fun entry => entry.2 = variant with
  | some entry => entry.1
  | none => String.ofList (Text.lowerText variant.toList)

/-- Bind a variant, which must not have another binding. -/
def claim (bindings : Table Binding) (variant : String) (binding : Binding) :
    Except CompileError (Table Binding) :=
  match bindings.get? variant with
  | none => .ok (bindings ++ [(variant, binding)])
  | some earlier =>
    if earlier = binding then .ok bindings
    else .error (.conflictingDiscriminator variant earlier.text binding.text)

/-- Bind the referenced members of a union. -/
def claimMembers (root : Json) (property : String) (mapped : List (String × String))
    (bindings : Table Binding) : List Shape → Except CompileError (Table Binding)
  | [] => .ok bindings
  | member :: rest =>
    match member.kind with
    | .reference pointer => do
      let variant ← Pointer.shapeName root pointer
      let bindings ← claim bindings variant { property, literal := literalFor mapped variant }
      claimMembers root property mapped bindings rest
    | _ => claimMembers root property mapped bindings rest

/-- Bind the variants of a shape, if it is a discriminated union. -/
def claimShape (root : Json) (bindings : Table Binding) (shape : Shape) :
    Except CompileError (Table Binding) :=
  match shape.kind with
  | .composition .allOf _ _ => .ok bindings
  | .composition _ members (some discriminator) => do
    let mapped ← mappedLiterals root discriminator.mapping
    claimMembers root discriminator.property mapped bindings members
  | _ => .ok bindings

/-- Bind the variants of all shapes, after those that are bound already. -/
def claimShapes (root : Json) (bindings : Table Binding) :
    List NamedShape → Except CompileError (Table Binding)
  | [] => .ok bindings
  | named :: rest => do
    let bindings ← claimShape root bindings named.shape
    claimShapes root bindings rest

/-- The bindings of a document's shapes, in the order in which they are found. -/
def collect (root : Json) (shapes : List NamedShape) : Except CompileError (Table Binding) :=
  claimShapes root [] shapes

end Binding

end ApiScribe
