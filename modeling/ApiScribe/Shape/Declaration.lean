import ApiScribe.Naming.EnumKey
import ApiScribe.Shape.Type

/-!
# Declarations of shapes

Every named shape is declared as a type of its name.  An object with declared properties becomes
an interface, a composition with one named base becomes an interface that extends the base, an
enumeration takes the form that the settings choose, and everything else becomes an alias of its
type.

An interface has its limits: it cannot admit null, its properties cannot coexist with typed other
ones, and it can only extend objects.  Where these stand in the way an alias is declared instead,
and a diagnostic says so when something is lost by it.
-/

namespace ApiScribe

open TypeScript

/-- The members of an enumeration, each under a key of its own. -/
def EnumValue.members (values : List EnumValue) : List EnumMember :=
  (EnumKey.assign values).map fun (key, value) => { key, value := value.literal }

/-- Can a native enumeration hold the value? -/
def EnumValue.isNative : EnumValue → Bool
  | .boolean _ => false
  | .null => false
  | _ => true

namespace Shape

/-- The declaration of an enumeration in the chosen style.  A native one holds neither flags nor
null, and cannot be nullable; a union of literals is declared then. -/
def enumerationKind (values : List EnumValue) (nullable : Bool) : Session DeclarationKind := do
  let settings ← Session.settings
  let bottom := if nullable then some settings.nullableType.bottom else none
  let members := EnumValue.members values
  if settings.enumStyle = .native && (nullable || !values.all EnumValue.isNative) then do
    Session.report .enumStyleFallback
    pure (.enumeration .union members bottom)
  else pure (.enumeration settings.enumStyle members bottom)

/-- The index signature of an interface: objects that admit other properties have one. -/
def openIndex : AdditionalValues → Option Ty
  | .unrestricted => some (.primitive .unknown)
  | _ => none

/-- Are there other properties, of a type of their own? -/
def hasTypedValues : AdditionalValues → Bool
  | .typed _ => true
  | _ => false

/-- The declaration of an object with declared properties. -/
def objectDeclarationKind (name : String) (nullable : Bool) (declared : List (String × Shape))
    (required : List String) (additional : AdditionalValues) : Session DeclarationKind := do
  if nullable || hasTypedValues additional then do
    let settings ← Session.settings
    let type ← ownObjectType name declared required additional
    pure (.alias (type.nullableIf nullable settings.nullableType))
  else do
    let properties ← properties (some name) (some name) required declared
    pure (.interface [] properties (openIndex additional))

/-- Can an interface extend the type of the shape? -/
def isExtendable (shape : Shape) : Bool :=
  !shape.nullable && match shape.kind with
    | .object .. => true
    | .reference _ => true
    | .unknown => true
    | .composition .allOf _ _ => true
    | _ => false

/-- What an interface says beyond its bases. -/
structure InterfaceBody where
  properties : List Property
  index : Option Ty
  declared : List String

/-- The body that a shape gives to an interface of a given name, if it can be written as one. -/
def interfaceBody (name : String) (extra : Option Shape) : Session (Option InterfaceBody) :=
  match extra with
  | none => pure (some { properties := [], index := none, declared := [] })
  | some extra =>
    match extra.kind, extra.nullable with
    | .unknown, false => pure (some { properties := [], index := none, declared := [] })
    | .object declared required additional, false =>
      if hasTypedValues additional then pure none
      else do
        let properties ← properties (some name) (some name) required declared
        pure (some {
          properties, index := openIndex additional, declared := declared.map Prod.fst })
    | _, _ => pure none

/-- Properties with the discriminating one in front, unless it is among those that were
declared. -/
def withBoundProperty (style : PropertyNameStyle) (binding : Option Binding)
    (body : InterfaceBody) : List Property :=
  match binding with
  | some binding =>
    if body.declared.contains binding.property then body.properties
    else boundProperty style binding none :: body.properties
  | none => body.properties

/-- The interface that extends the target of a pointer, if it can be written. -/
def extendingInterface (name pointer : String) (extra : Option Shape) :
    Session (Option DeclarationKind) := do
  let base ← Session.onRoot fun root => Pointer.shapeName root pointer
  let target ← Session.onRoot fun root => Pointer.resolve root pointer
  if !target.isExtendable then do
    Session.report (.nonObjectBase base)
    pure none
  else do
    match ← interfaceBody name extra with
    | none => pure none
    | some body => do
      let settings ← Session.settings
      let binding ← Session.bindingOf? name
      pure (some (.interface [base]
        (withBoundProperty settings.propertyNameStyle binding body) body.index))

/-- The pointers of the references among shapes. -/
def pointers (shapes : List Shape) : List String :=
  shapes.filterMap fun shape => match shape.kind with
    | .reference pointer => some pointer
    | _ => none

/-- The names of the schemas that pointers lead to. -/
def shapeNames : List String → Session (List String)
  | [] => pure []
  | pointer :: rest => do
    let name ← Session.onRoot fun root => Pointer.shapeName root pointer
    let others ← shapeNames rest
    pure (name :: others)

/-- The interface for a composition of shapes, if it can be written: there is one named base and at
most one other member.  Several named bases are reported. -/
def composedInterface (name : String) (nullable : Bool) (members : List Shape) :
    Session (Option DeclarationKind) :=
  match pointers members, members.filter fun member => !member.isReference with
  | [pointer], [] => if nullable then pure none else extendingInterface name pointer none
  | [pointer], [extra] => if nullable then pure none else extendingInterface name pointer extra
  | first :: second :: rest, _ => do
    let bases ← shapeNames (first :: second :: rest)
    Session.report (.multipleBaseReferences bases)
    pure none
  | _, _ => pure none

/-- The type of a member of a composition that a named shape consists of. -/
def memberType (name : String) (member : Shape) : Session Ty :=
  match member.kind with
  | .object declared required additional =>
    if declared.isEmpty then member.type (some name) none
    else do
      let settings ← Session.settings
      let type ← ownObjectType name declared required additional
      pure (type.nullableIf member.nullable settings.nullableType)
  | _ => member.type (some name) none

/-- The types of the members of a composition that a named shape consists of. -/
def memberTypes (name : String) : List Shape → Session (List Ty)
  | [] => pure []
  | member :: rest => do
    let type ← memberType name member
    let others ← memberTypes name rest
    pure (type :: others)

/-- Types that hold all at once; about none of them nothing is known. -/
def intersect : List Ty → Ty
  | [] => .primitive .unknown
  | [type] => type
  | types => .intersection types

/-- The declaration of a composition of shapes that hold all at once. -/
def compositionKind (name : String) (nullable : Bool) (members : List Shape) :
    Session DeclarationKind := do
  match ← composedInterface name nullable members with
  | some kind => pure kind
  | none => do
    let settings ← Session.settings
    let types ← memberTypes name members
    pure (.alias ((intersect types).nullableIf nullable settings.nullableType))

/-- The way in which a named shape is declared. -/
def declarationKind (name : String) (shape : Shape) : Session DeclarationKind :=
  let aliasKind : Session DeclarationKind := do
    let type ← shape.type (some name) none
    pure (.alias type)
  match shape.kind with
  | .enumeration values => enumerationKind values shape.nullable
  | .object declared required additional =>
    if declared.isEmpty then aliasKind
    else objectDeclarationKind name shape.nullable declared required additional
  | .composition .allOf members _ => compositionKind name shape.nullable members
  | _ => aliasKind

/-- The declaration of a named shape. -/
def declaration (name : String) (shape : Shape) : Session Declaration := do
  Session.setSubject name
  let kind ← declarationKind name shape
  pure { name, description := shape.description, kind }

end Shape

/-- The declaration of a hoisted enumeration. -/
def InlineEnum.declaration (inline : InlineEnum) : Session Declaration := do
  Session.setSubject inline.name
  let kind ← Shape.enumerationKind inline.values false
  pure { name := inline.name, kind }

end ApiScribe
