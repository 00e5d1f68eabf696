import ApiScribe.Number.Binary64
import ApiScribe.Settings.Basic

/-!
# The TypeScript that is written

The part of the language that generated files consist of: types, expressions, the declarations of
types, classes with methods, imports, and modules of all these.
-/

namespace ApiScribe.TypeScript

/-- Types with a name of their own in the language. -/
inductive Primitive where
  | string
  | number
  | boolean
  | null
  | undefined
  | void
  | unknown
  | never
  | date
deriving DecidableEq, Repr, Inhabited

/-- Literals, which are both types and expressions. -/
inductive Literal where
  | string (value : String)
  | number (value : Binary64)
  | integer (value : Int)
  | boolean (value : Bool)
  | null
deriving DecidableEq, Repr, Inhabited

mutual

/-- Types. -/
inductive Ty where
  | primitive (primitive : Primitive)
  | array (item : Ty)
  | union (members : List Ty)
  | intersection (members : List Ty)
  | object (properties : List Property) (index : Option Ty)
  | record (key value : Ty)
  | literal (literal : Literal)
  | named (name : String)
  | generic (name : String) (arguments : List Ty)

/-- A property of an object type. -/
structure Property where
  name : String
  type : Ty
  optional : Bool := false
  description : Option String := none

end

deriving instance Repr for Ty

instance : Inhabited Ty := ⟨.primitive .unknown⟩

instance : Inhabited Property := ⟨{ name := "", type := default }⟩

mutual

/-- Expressions. -/
inductive Expr where
  | ident (name : String)
  | literal (literal : Literal)
  | call (callee : Expr) (types : List Ty) (arguments : List Expr)
  | object (properties : List (String × Expr))
  | member (object : Expr) (name : String)
  | template (parts : List TemplatePart)

/-- A part of a template literal: text, or the value of an expression. -/
inductive TemplatePart where
  | text (content : String)
  | value (expression : Expr)

end

instance : Inhabited Expr := ⟨.ident ""⟩

/-- Statements: a return with or without a value. -/
inductive Statement where
  | return (value : Option Expr)
deriving Inhabited

/-- A parameter of a function. -/
structure Parameter where
  name : String
  type : Ty
  optional : Bool := false
deriving Inhabited

/-- A method of a class. -/
structure Function where
  name : String
  description : Option String := none
  parameters : List Parameter
  result : Option Ty
  body : List Statement
  async : Bool := false
deriving Inhabited

/-- An exported class: members that are given as text, and methods. -/
structure Class where
  name : String
  prelude : String
  methods : List Function
deriving Inhabited

/-- An import of names from a module. -/
structure Import where
  items : List String
  source : String
  typeOnly : Bool := false
deriving Inhabited

/-- A member of a declared enumeration. -/
structure EnumMember where
  key : String
  value : Literal
deriving DecidableEq, Repr, Inhabited

/-- The ways of declaring a type. -/
inductive DeclarationKind where
  | interface (bases : List String) (properties : List Property) (index : Option Ty)
  | alias (type : Ty)
  | enumeration (style : EnumStyle) (members : List EnumMember) (bottom : Option Primitive)
deriving Inhabited

/-- The declaration of a type. -/
structure Declaration where
  name : String
  description : Option String := none
  kind : DeclarationKind
deriving Inhabited

/-- A module. -/
structure Module where
  imports : List Import := []
  types : List Declaration := []
  classes : List Class := []
deriving Inhabited

/-- The type of objects with values of one type under every key. -/
def Ty.dictionary (value : Ty) : Ty :=
  .record (.primitive .string) value

end ApiScribe.TypeScript
