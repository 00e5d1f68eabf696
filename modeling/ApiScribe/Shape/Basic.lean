import ApiScribe.Schema.Basic

/-!
# Shapes

A shape is what a schema describes, classified: every shape is of exactly one kind, may admit null
besides, and may carry a description.  References stay references, so the shape of a recursive
schema is finite.
-/

namespace ApiScribe

/-- The types of values without parts. -/
inductive PrimitiveType where
  | string
  | number
  | integer
  | boolean
  | null
deriving DecidableEq, Repr, Inhabited

/-- The ways in which a shape is put together from members: all of them at once, exactly one, or
at least one. -/
inductive CompositionKind where
  | allOf
  | oneOf
  | anyOf
deriving DecidableEq, Repr, Inhabited

mutual

/-- What properties an object may have beyond the declared ones. -/
inductive AdditionalValues where
  | unspecified
  | forbidden
  | unrestricted
  | typed (values : Shape)

/-- The kinds of shapes. -/
inductive ShapeKind where
  | primitive (type : PrimitiveType) (format : Option String)
  | array (items : Shape)
  | object (properties : List (String × Shape)) (required : List String)
      (additional : AdditionalValues)
  | reference (pointer : String)
  | enumeration (values : List EnumValue)
  | composition (kind : CompositionKind) (members : List Shape)
      (discriminator : Option Discriminator)
  | constant (value : EnumValue)
  | unknown
  | unclassified (typeName : String)

/-- A classified schema. -/
structure Shape where
  kind : ShapeKind
  nullable : Bool := false
  description : Option String := none

end

namespace Shape

instance : Inhabited Shape := ⟨{ kind := .unknown }⟩

/-- A shape that says nothing. -/
def unknown : Shape := { kind := .unknown }

/-- The shape of strings. -/
def string : Shape := { kind := .primitive .string none }

/-- Is the shape a reference? -/
def isReference (shape : Shape) : Bool :=
  match shape.kind with
  | .reference _ => true
  | _ => false

/-- Does the shape describe null alone? -/
def isNull (shape : Shape) : Bool :=
  match shape.kind with
  | .primitive .null _ => true
  | _ => false

/-- Does the shape say nothing, not even that null is admitted? -/
def isUnrestricted (shape : Shape) : Bool :=
  match shape.kind with
  | .unknown => !shape.nullable
  | _ => false

end Shape

/-- A shape that the document names. -/
structure NamedShape where
  name : String
  shape : Shape

end ApiScribe
