/-!
# Diagnostics

A diagnostic says that something was generated, but not in the best form: a type was written in a
wider or less readable way, a name was changed, or a part of the document was left out.  It names
the shape or operation that it is about.
-/

namespace ApiScribe

/-- What a diagnostic reports. -/
inductive DiagnosticKind where
  /-- A composition of several named bases was written as an intersection. -/
  | multipleBaseReferences (bases : List String)
  /-- An object with declared properties and typed other ones was written as an intersection. -/
  | typedAdditionalProperties
  /-- A type name is not known. -/
  | unclassifiedSchema (typeName : String)
  /-- An interface cannot extend the base. -/
  | nonObjectBase (base : String)
  /-- The name for a hoisted enumeration was taken. -/
  | hoistedNameCollision (requested assigned : String)
  /-- A native enumeration cannot hold the values. -/
  | enumStyleFallback
  /-- A parameter was declared again. -/
  | duplicateParameter (name : String)
  /-- A placeholder of a path has no parameter. -/
  | undeclaredPathParameter (name : String)
  /-- The name for a client class was taken. -/
  | clientNameCollision (requested assigned : String)
deriving DecidableEq, Repr, Inhabited

/-- A report about a shape or an operation. -/
structure Diagnostic where
  subject : String
  kind : DiagnosticKind
deriving DecidableEq, Repr, Inhabited

/-- The text of a report without its subject. -/
def DiagnosticKind.text : DiagnosticKind → String
  | .multipleBaseReferences bases =>
    "allOf combines several base references (" ++ String.intercalate ", " bases ++
      "); emitted as an intersection type"
  | .typedAdditionalProperties =>
    "fixed properties with typed additionalProperties; " ++
      "emitted as an intersection with Record<string, T>"
  | .unclassifiedSchema typeName =>
    "unsupported schema type `" ++ typeName ++ "`; emitted as unknown"
  | .nonObjectBase base =>
    "allOf base `" ++ base ++ "` is not an object type; emitted as an intersection type"
  | .hoistedNameCollision requested assigned =>
    "inline enum name `" ++ requested ++ "` is already taken; hoisted as `" ++ assigned ++ "`"
  | .enumStyleFallback =>
    "enum is nullable or has boolean members, which a TypeScript enum cannot hold; " ++
      "emitted as a union type"
  | .duplicateParameter name =>
    "parameter `" ++ name ++ "` is declared more than once; the first declaration is used"
  | .undeclaredPathParameter name =>
    "path placeholder `\x7b" ++ name ++
      "\x7d` has no matching path parameter; typed as string"
  | .clientNameCollision requested assigned =>
    "client class `" ++ requested ++ "` is already generated for another tag; emitted as `" ++
      assigned ++ "`"

/-- The text of a report. -/
def Diagnostic.text (diagnostic : Diagnostic) : String :=
  diagnostic.subject ++ ": " ++ diagnostic.kind.text

end ApiScribe
