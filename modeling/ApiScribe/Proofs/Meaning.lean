import ApiScribe.Pointer
import ApiScribe.Shape.Declaration
import Mathlib.Algebra.Field.Rat

/-!
# What shapes and types mean

A shape and a type both stand for sets of JSON values.

* `Shape.Accepts` is the meaning of a shape.  A reference accepts what the named shape accepts
  that it leads to.  The relation is inductive, so a shape that refers to itself accepts what it
  accepts by a finite derivation.
* `Ty.Admits` is the structural meaning of a type among declarations, with
  `DeclarationKind.Admits` for what is declared and `BodyAdmits` for the members of an object type
  or an interface.  A name stands for its declaration.  A body without members asks for nothing
  but a value other than null.

Numbers are compared by their value (`JsonNumber.value?`), so it does not matter whether a number
was written with a point.
-/

namespace ApiScribe

/-! ## Values -/

/-- The value of a finite number. -/
def Binary64.value? : Binary64 → Option Rat
  | .finite negative significand exponent =>
    some ((if negative then -1 else 1) * significand * 2 ^ exponent)
  | _ => none

/-- The value of a number of a document. -/
def JsonNumber.value? : JsonNumber → Option Rat
  | .integer value => some value
  | .binary value => value.value?

/-- The value of an enumeration stands for a JSON value. -/
inductive EnumValue.Denotes : EnumValue → Json → Prop
  | string (text : String) : Denotes (.string text) (.string text)
  | integer {value : Int} {number : JsonNumber} (h : number.value? = some (value : Rat)) :
    Denotes (.integer value) (.number number)
  | float {value : Binary64} {number : JsonNumber} {size : Rat} (hvalue : value.value? = some size)
    (h : number.value? = some size) : Denotes (.float value) (.number number)
  | boolean (flag : Bool) : Denotes (.boolean flag) (.boolean flag)
  | null : Denotes .null .null

/-- The value is of the primitive type; integers are numbers. -/
inductive PrimitiveType.Holds : PrimitiveType → Json → Prop
  | string (text : String) : Holds .string (.string text)
  | number (number : JsonNumber) : Holds .number (.number number)
  | integer (number : JsonNumber) : Holds .integer (.number number)
  | boolean (flag : Bool) : Holds .boolean (.boolean flag)
  | null : Holds .null .null

/-! ## Shapes -/

/-- The JSON values that a shape stands for, in a document with these named shapes. -/
inductive Shape.Accepts (root : Json) (shapes : List NamedShape) : Shape → Json → Prop
  | null {kind : ShapeKind} {description : Option String} :
    Accepts root shapes ⟨kind, true, description⟩ .null
  | primitive {type : PrimitiveType} {format : Option String} {nullable : Bool}
    {description : Option String} {value : Json} (h : type.Holds value) :
    Accepts root shapes ⟨.primitive type format, nullable, description⟩ value
  | array {items : Shape} {nullable : Bool} {description : Option String} {values : List Json}
    (h : ∀ value ∈ values, Accepts root shapes items value) :
    Accepts root shapes ⟨.array items, nullable, description⟩ (.array values)
  | object {properties : List (String × Shape)} {required : List String}
    {additional : AdditionalValues} {nullable : Bool} {description : Option String}
    {members : Table Json} (hrequired : ∀ name ∈ required, name ∈ members.names)
    (hproperties : ∀ entry ∈ properties, ∀ value, members.get? entry.1 = some value →
      Accepts root shapes entry.2 value)
    (hforbidden : additional = .forbidden →
      ∀ member ∈ members, member.1 ∈ properties.map Prod.fst)
    (htyped : ∀ values, additional = .typed values → ∀ member ∈ members,
      member.1 ∉ properties.map Prod.fst → Accepts root shapes values member.2) :
    Accepts root shapes ⟨.object properties required additional, nullable, description⟩
      (.object members)
  | reference {pointer name : String} {target : Shape} {nullable : Bool}
    {description : Option String} {value : Json} (hname : Pointer.shapeName root pointer = .ok name)
    (htarget : ⟨name, target⟩ ∈ shapes) (h : Accepts root shapes target value) :
    Accepts root shapes ⟨.reference pointer, nullable, description⟩ value
  | enumeration {values : List EnumValue} {listed : EnumValue} {nullable : Bool}
    {description : Option String} {value : Json} (hlisted : listed ∈ values)
    (h : listed.Denotes value) :
    Accepts root shapes ⟨.enumeration values, nullable, description⟩ value
  | constant {listed : EnumValue} {nullable : Bool} {description : Option String} {value : Json}
    (h : listed.Denotes value) : Accepts root shapes ⟨.constant listed, nullable, description⟩ value
  | allOf {members : List Shape} {discriminator : Option Discriminator} {nullable : Bool}
    {description : Option String} {value : Json}
    (h : ∀ member ∈ members, Accepts root shapes member value) :
    Accepts root shapes ⟨.composition .allOf members discriminator, nullable, description⟩ value
  | oneOf {members : List Shape} {discriminator : Option Discriminator} {nullable : Bool}
    {description : Option String} {member : Shape} {value : Json} (hmember : member ∈ members)
    (h : Accepts root shapes member value) :
    Accepts root shapes ⟨.composition .oneOf members discriminator, nullable, description⟩ value
  | anyOf {members : List Shape} {discriminator : Option Discriminator} {nullable : Bool}
    {description : Option String} {member : Shape} {value : Json} (hmember : member ∈ members)
    (h : Accepts root shapes member value) :
    Accepts root shapes ⟨.composition .anyOf members discriminator, nullable, description⟩ value
  | unknown {nullable : Bool} {description : Option String} (value : Json) :
    Accepts root shapes ⟨.unknown, nullable, description⟩ value
  | unclassified {typeName : String} {nullable : Bool} {description : Option String}
    (value : Json) : Accepts root shapes ⟨.unclassified typeName, nullable, description⟩ value

mutual

/-- Is no list of shapes that hold all at once empty, at any depth?  References are not followed. -/
def Shape.hasNoEmptyAllOf : Shape → Bool
  | ⟨kind, _, _⟩ =>
    match kind with
    | .array items => items.hasNoEmptyAllOf
    | .object properties _ additional =>
      Shape.entriesHaveNoEmptyAllOf properties &&
        match additional with
        | .typed values => values.hasNoEmptyAllOf
        | _ => true
    | .composition kind members _ =>
      (kind != .allOf || !members.isEmpty) && Shape.membersHaveNoEmptyAllOf members
    | _ => true

/-- The same for the shapes of properties. -/
def Shape.entriesHaveNoEmptyAllOf : List (String × Shape) → Bool
  | [] => true
  | (_, shape) :: rest => shape.hasNoEmptyAllOf && Shape.entriesHaveNoEmptyAllOf rest

/-- The same for the members of a composition. -/
def Shape.membersHaveNoEmptyAllOf : List Shape → Bool
  | [] => true
  | shape :: rest => shape.hasNoEmptyAllOf && Shape.membersHaveNoEmptyAllOf rest

end

theorem Shape.hasNoEmptyAllOf_of_mem_entries {entries : List (String × Shape)}
    (h : entriesHaveNoEmptyAllOf entries = true) :
    ∀ entry ∈ entries, entry.2.hasNoEmptyAllOf = true := by
  induction entries with
  | nil => exact fun _ hmem => absurd hmem List.not_mem_nil
  | cons entry entries ih =>
    rw [entriesHaveNoEmptyAllOf, Bool.and_eq_true] at h
    exact List.forall_mem_cons.mpr ⟨h.1, ih h.2⟩

theorem Shape.hasNoEmptyAllOf_of_mem_members {members : List Shape}
    (h : membersHaveNoEmptyAllOf members = true) :
    ∀ member ∈ members, member.hasNoEmptyAllOf = true := by
  induction members with
  | nil => exact fun _ hmem => absurd hmem List.not_mem_nil
  | cons member members ih =>
    rw [membersHaveNoEmptyAllOf, Bool.and_eq_true] at h
    exact List.forall_mem_cons.mpr ⟨h.1, ih h.2⟩

theorem Shape.hasNoEmptyAllOf_of_object {properties : List (String × Shape)}
    {required : List String} {additional : AdditionalValues} {nullable : Bool}
    {description : Option String}
    (h : hasNoEmptyAllOf ⟨.object properties required additional, nullable, description⟩ = true) :
    (∀ entry ∈ properties, entry.2.hasNoEmptyAllOf = true) ∧
      ∀ values, additional = .typed values → values.hasNoEmptyAllOf = true := by
  rw [hasNoEmptyAllOf.eq_def, Bool.and_eq_true] at h
  obtain ⟨hentries, hvalues⟩ := h
  refine ⟨hasNoEmptyAllOf_of_mem_entries hentries, ?_⟩
  rintro values rfl
  exact hvalues

theorem Shape.hasNoEmptyAllOf_of_composition {kind : CompositionKind} {members : List Shape}
    {discriminator : Option Discriminator} {nullable : Bool} {description : Option String}
    (h : hasNoEmptyAllOf ⟨.composition kind members discriminator, nullable, description⟩ = true) :
    (kind = .allOf → members ≠ []) ∧ ∀ member ∈ members, member.hasNoEmptyAllOf = true := by
  rw [hasNoEmptyAllOf.eq_def, Bool.and_eq_true] at h
  obtain ⟨hnonempty, hmembers⟩ := h
  refine ⟨?_, hasNoEmptyAllOf_of_mem_members hmembers⟩
  rintro rfl rfl
  cases hnonempty

namespace TypeScript

/-! ## Types -/

/-- The literal stands for a JSON value. -/
inductive Literal.Denotes : Literal → Json → Prop
  | string (text : String) : Denotes (.string text) (.string text)
  | number {value : Binary64} {number : JsonNumber} {size : Rat} (hvalue : value.value? = some size)
    (h : number.value? = some size) : Denotes (.number value) (.number number)
  | integer {value : Int} {number : JsonNumber} (h : number.value? = some (value : Rat)) :
    Denotes (.integer value) (.number number)
  | boolean (flag : Bool) : Denotes (.boolean flag) (.boolean flag)
  | null : Denotes .null .null

mutual

/-- The JSON values that belong to a type, among these declarations.  Nothing belongs to the types
that no JSON value has: dates, `undefined`, `void` and `never`. -/
inductive Ty.Admits (declarations : List Declaration) : Ty → Json → Prop
  | string (text : String) : Ty.Admits declarations (.primitive .string) (.string text)
  | number (number : JsonNumber) : Ty.Admits declarations (.primitive .number) (.number number)
  | boolean (flag : Bool) : Ty.Admits declarations (.primitive .boolean) (.boolean flag)
  | null : Ty.Admits declarations (.primitive .null) .null
  | unknown (value : Json) : Ty.Admits declarations (.primitive .unknown) value
  | array {item : Ty} {values : List Json}
    (h : ∀ value ∈ values, Ty.Admits declarations item value) :
    Ty.Admits declarations (.array item) (.array values)
  | union {members : List Ty} {type : Ty} {value : Json} (hmem : type ∈ members)
    (h : Ty.Admits declarations type value) : Ty.Admits declarations (.union members) value
  | intersection {members : List Ty} {value : Json}
    (h : ∀ type ∈ members, Ty.Admits declarations type value) :
    Ty.Admits declarations (.intersection members) value
  | object {properties : List Property} {index : Option Ty} {value : Json}
    (h : BodyAdmits declarations properties index value) :
    Ty.Admits declarations (.object properties index) value
  | record {type : Ty} {members : Table Json}
    (h : ∀ member ∈ members, Ty.Admits declarations type member.2) :
    Ty.Admits declarations (.record (.primitive .string) type) (.object members)
  | literal {literal : Literal} {value : Json} (h : literal.Denotes value) :
    Ty.Admits declarations (.literal literal) value
  | named {declaration : Declaration} {value : Json} (hmem : declaration ∈ declarations)
    (h : DeclarationKind.Admits declarations declaration.kind value) :
    Ty.Admits declarations (.named declaration.name) value

/-- The JSON values that fit the members of an object type or an interface.  An index signature is
about all members of a value, the declared ones included. -/
inductive BodyAdmits (declarations : List Declaration) :
    List Property → Option Ty → Json → Prop
  | empty {value : Json} (h : value ≠ .null) : BodyAdmits declarations [] none value
  | object {properties : List Property} {index : Option Ty} {members : Table Json}
    (hrequired : ∀ property ∈ properties, property.optional = false →
      property.name ∈ members.names)
    (hproperties : ∀ property ∈ properties, ∀ value, members.get? property.name = some value →
      Ty.Admits declarations property.type value)
    (hindex : ∀ type, index = some type → ∀ member ∈ members,
      Ty.Admits declarations type member.2) :
    BodyAdmits declarations properties index (.object members)

/-- The JSON values that belong to what is declared: an interface is its bases and its body, and an
enumeration the values of its members in every style. -/
inductive DeclarationKind.Admits (declarations : List Declaration) :
    DeclarationKind → Json → Prop
  | interface {bases : List String} {properties : List Property} {index : Option Ty}
    {value : Json} (hbases : ∀ base ∈ bases, Ty.Admits declarations (.named base) value)
    (hbody : BodyAdmits declarations properties index value) :
    DeclarationKind.Admits declarations (.interface bases properties index) value
  | aliased {type : Ty} {value : Json} (h : Ty.Admits declarations type value) :
    DeclarationKind.Admits declarations (.alias type) value
  | member {style : EnumStyle} {members : List EnumMember} {bottom : Option Primitive}
    {member : EnumMember} {value : Json} (hmem : member ∈ members)
    (h : member.value.Denotes value) :
    DeclarationKind.Admits declarations (.enumeration style members bottom) value
  | bottom {style : EnumStyle} {members : List EnumMember} {bottom : Primitive} {value : Json}
    (h : Ty.Admits declarations (.primitive bottom) value) :
    DeclarationKind.Admits declarations (.enumeration style members (some bottom)) value

end

/-- Is an interface declared? -/
def DeclarationKind.isInterface : DeclarationKind → Bool
  | .interface .. => true
  | _ => false

end TypeScript

end ApiScribe
