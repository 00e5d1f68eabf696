import ApiScribe.Naming.Case
import ApiScribe.Session
import ApiScribe.TypeScript.Syntax

/-!
# Types of shapes

`Shape.type` writes a shape as a type.  A shape stands somewhere: `parent` is the declaration
around it and `property` the property whose value it describes, each of them if there is one.
Where both are known they name the place, and an enumeration found there is hoisted to a
declaration of that name; objects found there pass the name on to their own properties.

A nullable type admits one value besides its own, the bottom that the settings choose.
`withBottom` adds it to a union or makes a union with it, and never adds it twice.

The shape that a discriminated union refers to is bound to a literal.  Where the properties of
such a shape are written, the binding replaces the type of the discriminating property.
-/

namespace ApiScribe

open TypeScript

/-- The value that nullable types admit. -/
def NullableType.bottom : NullableType → Primitive
  | .null => .null
  | .undefined => .undefined

/-- Is the type a given primitive one? -/
def TypeScript.Ty.isPrimitive (primitive : Primitive) : Ty → Bool
  | .primitive other => other == primitive
  | _ => false

/-- The type that admits the bottom as well. -/
def TypeScript.Ty.withBottom (bottom : Primitive) : Ty → Ty
  | .union members =>
    .union (if members.any (Ty.isPrimitive bottom) then members
      else members ++ [.primitive bottom])
  | type => if type.isPrimitive bottom then type else .union [type, .primitive bottom]

/-- The type, which admits the bottom as well if it is nullable. -/
def TypeScript.Ty.nullableIf (nullable : Bool) (style : NullableType) (type : Ty) : Ty :=
  if nullable then type.withBottom style.bottom else type

/-- Members put together; a single member stands for itself, and no member at all for the type
without values. -/
def TypeScript.Ty.combine (wrap : List Ty → Ty) : List Ty → Ty
  | [] => .primitive .never
  | [type] => type
  | types => wrap types

/-- The literal for a value of an enumeration. -/
def EnumValue.literal : EnumValue → Literal
  | .string value => .string value
  | .integer value => .integer value
  | .float value => .number value
  | .boolean value => .boolean value
  | .null => .null

/-- The type of values without parts. -/
def PrimitiveType.type (settings : Settings) (format : Option String) : PrimitiveType → Ty
  | .string =>
    if settings.dateType = .date ∧ (format = some "date" ∨ format = some "date-time") then
      .primitive .date
    else .primitive .string
  | .number => .primitive .number
  | .integer => .primitive .number
  | .boolean => .primitive .boolean
  | .null => .primitive .null

/-- The spelling of a property name. -/
def PropertyNameStyle.spell : PropertyNameStyle → String → String
  | .unchanged, name => name
  | .camelCase, name => Naming.camelCase name

namespace Shape

/-- The name of the place of a property. -/
def placeName (parent property : String) : String :=
  parent ++ Naming.pascalCase property

/-- The declaration around the properties of an object that stands at a place. -/
def innerParent : (parent property : Option String) → Option String
  | some parent, some property => some (placeName parent property)
  | some parent, none => some parent
  | none, _ => none

/-- The type of an enumeration at a place. -/
def enumerationType (parent property : Option String) (values : List EnumValue) : Session Ty :=
  match parent, property with
  | some parent, some property => do
    let name ← Session.hoist (placeName parent property) values
    pure (.named name)
  | _, _ => pure (Ty.combine .union (values.map fun value => .literal value.literal))

/-- The type of an object without declared properties. -/
def openObjectType (additional : AdditionalValues) (values : Session Ty) : Session Ty :=
  match additional with
  | .unspecified => pure (Ty.dictionary (.primitive .unknown))
  | .unrestricted => pure (Ty.dictionary (.primitive .unknown))
  | .forbidden => pure (Ty.dictionary (.primitive .never))
  | .typed _ => do
    let type ← values
    pure (Ty.dictionary type)

/-- The type of an object with declared properties. -/
def closedObjectType (properties : Session (List Property)) (additional : AdditionalValues)
    (values : Session Ty) : Session Ty := do
  let properties ← properties
  match additional with
  | .unspecified => pure (.object properties none)
  | .forbidden => pure (.object properties none)
  | .unrestricted => pure (.object properties (some (.primitive .unknown)))
  | .typed _ => do
    Session.report .typedAdditionalProperties
    let type ← values
    pure (.intersection [.object properties none, Ty.dictionary type])

/-- The discriminating property of a shape with its literal. -/
def boundProperty (style : PropertyNameStyle) (binding : Binding) (description : Option String) :
    Property :=
  { name := style.spell binding.property
    type := .literal (.string binding.literal)
    description }

mutual

/-- The type of a shape at a place. -/
def type (parent property : Option String) : Shape → Session Ty
  | ⟨kind, nullable, _⟩ => do
    let settings ← Session.settings
    let type ← match kind with
      | .primitive primitive format => pure (primitive.type settings format)
      | .array items => do
        let item ← type parent property items
        pure (Ty.array item)
      | .object properties required additional =>
        let inner := innerParent parent property
        let values : Session Ty := match additional with
          | .typed values => type inner none values
          | _ => pure (.primitive .unknown)
        if properties.isEmpty then openObjectType additional values
        else closedObjectType (propertyTypes inner none required properties) additional values
      | .reference pointer => do
        let name ← Session.onRoot fun root => Pointer.shapeName root pointer
        pure (Ty.named name)
      | .enumeration values => enumerationType parent property values
      | .composition kind members _ => do
        let types ← types parent property members
        match kind with
        | .allOf => pure (Ty.combine .intersection types)
        | .oneOf => pure (Ty.combine .union types)
        | .anyOf => pure (Ty.combine .union types)
      | .constant value => pure (Ty.literal value.literal)
      | .unknown => pure (Ty.primitive .unknown)
      | .unclassified typeName => do
        Session.report (.unclassifiedSchema typeName)
        pure (Ty.primitive .unknown)
    pure (type.nullableIf nullable settings.nullableType)

/-- The types of shapes at a place. -/
def types (parent property : Option String) : List Shape → Session (List Ty)
  | [] => pure []
  | shape :: rest => do
    let type ← type parent property shape
    let others ← types parent property rest
    pure (type :: others)

/-- The properties of an object inside a declaration.  A property that is not required is optional,
and one with a binding is the literal. -/
def propertyTypes (parent : Option String) (binding : Option Binding) (required : List String) :
    List (String × Shape) → Session (List Property)
  | [] => pure []
  | (name, shape) :: rest => do
    let settings ← Session.settings
    let style := settings.propertyNameStyle
    let property ← match binding.filter fun binding => binding.property = name with
      | some binding => pure (boundProperty style binding shape.description)
      | none => do
        let type ← type parent (some name) shape
        pure { name := style.spell name, type, optional := !required.contains name,
               description := shape.description }
    let others ← propertyTypes parent binding required rest
    pure (property :: others)

end

/-- The binding of the shape that owns properties, if they have an owner. -/
def ownerBinding (owner : Option String) : Session (Option Binding) :=
  match owner with
  | some owner => Session.bindingOf? owner
  | none => pure none

/-- The properties of an object inside a declaration, with the binding of the shape that owns
them. -/
def properties (parent owner : Option String) (required : List String)
    (properties : List (String × Shape)) : Session (List Property) := do
  let binding ← ownerBinding owner
  propertyTypes parent binding required properties

/-- The type of an object with declared properties that the shape `name` owns. -/
def ownObjectType (name : String) (declared : List (String × Shape)) (required : List String)
    (additional : AdditionalValues) : Session Ty :=
  closedObjectType (properties (some name) (some name) required declared) additional
    (match additional with
      | .typed values => values.type (some name) none
      | _ => pure (.primitive .unknown))

end Shape

end ApiScribe
