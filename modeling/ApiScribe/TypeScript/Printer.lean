import ApiScribe.Number.Decimal
import ApiScribe.Text.Lines
import ApiScribe.TypeScript.Quoted
import ApiScribe.TypeScript.Syntax

/-!
# Writing TypeScript

Every construct has a `text`.  Two blanks make one level of indentation, strings stand in single
quotes, and statements end in semicolons.  A union inside an intersection and a union or an
intersection inside an array stand in parentheses; nothing else needs them.

A description becomes a block comment: on one line if it is one line, and otherwise with a line of
its own for each of its lines.  The characters that would end the comment are kept apart by a
backslash.
-/

namespace ApiScribe.TypeScript

/-- A comment's content with every end of a comment taken apart. -/
def escapeCommentEnd : List Char → List Char
  | '*' :: '/' :: cs => '*' :: '\x5c' :: '/' :: escapeCommentEnd cs
  | c :: cs => c :: escapeCommentEnd cs
  | [] => []

/-- The lines of a description as they appear in a comment. -/
def commentLines (description : String) : List String :=
  (Text.lines (escapeCommentEnd (Text.trim description.toList))).map fun line =>
    String.ofList (Text.trimEnd line)

/-- A line of a comment that has several. -/
def commentLine (indent line : String) : String :=
  if line.isEmpty then indent ++ " *\n" else indent ++ " * " ++ line ++ "\n"

/-- The comment for a description; none for a blank one. -/
def comment (indent : String) (description : Option String) : String :=
  match description with
  | none => ""
  | some description =>
    match commentLines description with
    | [] => ""
    | [line] => indent ++ "/** " ++ line ++ " */\n"
    | lines =>
      indent ++ "/**\n" ++ String.join (lines.map (commentLine indent)) ++ indent ++ " */\n"

/-- The name of a primitive type. -/
def Primitive.text : Primitive → String
  | .string => "string"
  | .number => "number"
  | .boolean => "boolean"
  | .null => "null"
  | .undefined => "undefined"
  | .void => "void"
  | .unknown => "unknown"
  | .never => "never"
  | .date => "Date"

/-- The text of a literal. -/
def Literal.text : Literal → String
  | .string value => quote value
  | .number value => value.text
  | .integer value => toString value
  | .boolean true => "true"
  | .boolean false => "false"
  | .null => "null"

/-- Is the type a union? -/
def Ty.isUnion : Ty → Bool
  | .union _ => true
  | _ => false

/-- Is the type a union or an intersection? -/
def Ty.isCompound : Ty → Bool
  | .union _ => true
  | .intersection _ => true
  | _ => false

/-- The text in parentheses if they are needed. -/
def parenthesize (needed : Bool) (text : String) : String :=
  if needed then "(" ++ text ++ ")" else text

/-- Parts in braces on one line. -/
def braces (separator : String) (parts : List String) : String :=
  if parts.isEmpty then "\x7b\x7d"
  else "\x7b " ++ String.intercalate separator parts ++ " \x7d"

/-- A name, a question mark if it is optional, and its type. -/
def annotated (name : String) (optional : Bool) (type : String) : String :=
  name ++ (if optional then "?" else "") ++ ": " ++ type

/-- The index signature of an object. -/
def indexSignature (type : String) : String :=
  "[key: string]: " ++ type

mutual

/-- The text of a type. -/
def Ty.text : Ty → String
  | .primitive primitive => primitive.text
  | .array item => parenthesize item.isCompound item.text ++ "[]"
  | .union members => String.intercalate " | " (Ty.texts members)
  | .intersection members => String.intercalate " & " (Ty.operands members)
  | .object properties index =>
    braces "; " (Property.texts properties ++ match index with
      | some type => [indexSignature type.text]
      | none => [])
  | .record key value => "Record<" ++ key.text ++ ", " ++ value.text ++ ">"
  | .literal literal => literal.text
  | .named name => name
  | .generic name arguments =>
    name ++ "<" ++ String.intercalate ", " (Ty.texts arguments) ++ ">"

/-- The texts of types. -/
def Ty.texts : List Ty → List String
  | [] => []
  | type :: rest => type.text :: Ty.texts rest

/-- The texts of the members of an intersection. -/
def Ty.operands : List Ty → List String
  | [] => []
  | type :: rest => parenthesize type.isUnion type.text :: Ty.operands rest

/-- The text of a property. -/
def Property.text : Property → String
  | ⟨name, type, optional, _⟩ => annotated (keyText name) optional type.text

/-- The texts of properties. -/
def Property.texts : List Property → List String
  | [] => []
  | property :: rest => property.text :: Property.texts rest

end

/-- Text as it is written inside a template literal. -/
def escapeTemplateChar (c : Char) : List Char :=
  if c = '\x5c' then ['\x5c', '\x5c'] else if c = '\x60' then ['\x5c', '\x60'] else [c]

/-- Text as it is written inside a template literal. -/
def escapeTemplate (text : String) : String :=
  String.ofList (text.toList.flatMap escapeTemplateChar)

/-- A property of an object expression; one whose value is a variable of its own name is written
once. -/
def objectEntry (name value : String) : String :=
  if name = value then name else keyText name ++ ": " ++ value

mutual

/-- The text of an expression. -/
def Expr.text : Expr → String
  | .ident name => name
  | .literal literal => literal.text
  | .call callee types arguments =>
    callee.text ++
      (if types.isEmpty then "" else "<" ++ String.intercalate ", " (Ty.texts types) ++ ">") ++
      "(" ++ String.intercalate ", " (Expr.texts arguments) ++ ")"
  | .object properties => braces ", " (Expr.entries properties)
  | .member object name => object.text ++ "." ++ name
  | .template parts => "`" ++ TemplatePart.content parts ++ "`"

/-- The texts of expressions. -/
def Expr.texts : List Expr → List String
  | [] => []
  | expression :: rest => expression.text :: Expr.texts rest

/-- The texts of the properties of an object expression. -/
def Expr.entries : List (String × Expr) → List String
  | [] => []
  | (name, value) :: rest => objectEntry name value.text :: Expr.entries rest

/-- The text between the quotes of a template literal. -/
def TemplatePart.content : List TemplatePart → String
  | [] => ""
  | .text content :: rest => escapeTemplate content ++ TemplatePart.content rest
  | .value expression :: rest =>
    "$\x7b" ++ expression.text ++ "\x7d" ++ TemplatePart.content rest

end

/-- The indentation of a level. -/
def indentation (level : Nat) : String :=
  String.join (List.replicate level "  ")

/-- A statement at a level of indentation. -/
def Statement.text (level : Nat) : Statement → String
  | .return none => indentation level ++ "return;\n"
  | .return (some value) => indentation level ++ "return " ++ value.text ++ ";\n"

/-- The text of a parameter. -/
def Parameter.text (parameter : Parameter) : String :=
  annotated parameter.name parameter.optional parameter.type.text

/-- A method at a level of indentation. -/
def Function.text (level : Nat) (function : Function) : String :=
  let indent := indentation level
  comment indent function.description ++
    indent ++ (if function.async then "async " else "") ++ function.name ++
    "(" ++ String.intercalate ", " (function.parameters.map Parameter.text) ++ ")" ++
    (match function.result with
      | some type => ": " ++ type.text
      | none => "") ++
    " \x7b\n" ++
    String.join (function.body.map (Statement.text (level + 1))) ++
    indent ++ "\x7d\n"

/-- A text without the line feeds that it ends with. -/
def dropFinalLineFeeds (text : String) : String :=
  String.ofList (text.toList.reverse.dropWhile fun c => c = '\n').reverse

/-- The text of a class. -/
def Class.text (c : Class) : String :=
  "export class " ++ c.name ++ " \x7b\n" ++ dropFinalLineFeeds c.prelude ++ "\n" ++
    String.join (c.methods.map fun method => "\n" ++ method.text 1) ++ "\x7d\n"

/-- The text of an import. -/
def Import.text (item : Import) : String :=
  "import " ++ (if item.typeOnly then "type " else "") ++ "\x7b " ++
    String.intercalate ", " item.items ++ " \x7d from '" ++ item.source ++ "';\n"

/-- A line of the body of an interface. -/
def bodyLine (text : String) : String :=
  "  " ++ text ++ ";\n"

/-- A property in the body of an interface. -/
def Property.line (property : Property) : String :=
  comment "  " property.description ++ bodyLine property.text

/-- An interface without its comment. -/
def interfaceText (name : String) (bases : List String) (properties : List Property)
    (index : Option Ty) : String :=
  "export interface " ++ name ++
    (if bases.isEmpty then "" else " extends " ++ String.intercalate ", " bases) ++
    (if properties.isEmpty && index.isNone then " \x7b\x7d\n"
    else
      " \x7b\n" ++ String.join (properties.map Property.line) ++
        (match index with
          | some type => bodyLine (indexSignature type.text)
          | none => "") ++
        "\x7d\n")

/-- A member of an enumeration with a key. -/
def EnumMember.line (separator : String) (member : EnumMember) : String :=
  "  " ++ keyText member.key ++ separator ++ member.value.text ++ ",\n"

/-- An enumeration without its comment. -/
def enumerationText (name : String) (style : EnumStyle) (members : List EnumMember)
    (bottom : Option Primitive) : String :=
  match style with
  | .constObject =>
    "export const " ++ name ++ " = \x7b\n" ++ String.join (members.map (EnumMember.line ": ")) ++
      "\x7d as const;\n\n" ++
      "export type " ++ name ++ " = (typeof " ++ name ++ ")[keyof typeof " ++ name ++ "]" ++
      (match bottom with
        | some primitive => " | " ++ primitive.text
        | none => "") ++
      ";\n"
  | .union =>
    let values := members.map (fun member => member.value.text) ++
      (match bottom with
        | some primitive => [primitive.text]
        | none => [])
    "export type " ++ name ++ " = " ++
      (if values.isEmpty then "never" else String.intercalate " | " values) ++ ";\n"
  | .native =>
    "export enum " ++ name ++ " \x7b\n" ++ String.join (members.map (EnumMember.line " = ")) ++
      "\x7d\n"

/-- The text of a declaration. -/
def Declaration.text (declaration : Declaration) : String :=
  comment "" declaration.description ++
    match declaration.kind with
    | .interface bases properties index =>
      interfaceText declaration.name bases properties index
    | .alias type => "export type " ++ declaration.name ++ " = " ++ type.text ++ ";\n"
    | .enumeration style members bottom =>
      enumerationText declaration.name style members bottom

/-- The text of a module: blocks with a blank line between them, the first of which holds all the
imports. -/
def Module.text (module : Module) : String :=
  let imports := String.join (module.imports.map Import.text)
  String.intercalate "\n"
    ((if imports.isEmpty then [] else [imports]) ++
      module.types.map Declaration.text ++ module.classes.map Class.text)

end ApiScribe.TypeScript
