import ApiScribe.Client.Method
import ApiScribe.TypeScript.Names
import ApiScribe.TypeScript.Printer

/-!
# Clients

The operations of one tag become the methods of one class, which is written to a file of its own
name.  The file imports the declared types that the signatures of its methods mention.
-/

namespace ApiScribe

open TypeScript

/-- A client class and the file that holds it. -/
structure Client where
  tag : String
  className : String
  operations : List Operation
  imports : List String
  source : String
deriving Inhabited

namespace Client

/-- The name of the file that holds the class. -/
def fileName (client : Client) : String :=
  client.className ++ ".ts"

/-- The module that declares the types. -/
def typesModule : String := "./types"

/-- The class name that a tag asks for. -/
def requestedName (settings : Settings) (tag : String) : String :=
  let base := match Naming.pascalChars tag.toList with
    | [] => "Default"
    | cs => if Naming.startsWithDigit cs then "Tag" ++ String.ofList cs else String.ofList cs
  base ++ settings.clientSuffix.text

/-- The methods that call operations. -/
def methods : List Operation → Session (List Function)
  | [] => pure []
  | operation :: rest => do
    let method ← method operation
    let others ← methods rest
    pure (method :: others)

/-- The declared types that the signature of a method mentions. -/
def signatureNames (function : Function) : List String :=
  function.parameters.flatMap (fun parameter => parameter.type.names) ++
    match function.result with
    | some type => type.names
    | none => []

/-- The module that holds a client class. -/
def moduleOf (className : String) (imports : List String) (methods : List Function) : Module :=
  { imports := if imports.isEmpty then []
      else [{ items := imports, source := typesModule, typeOnly := true }]
    classes := [{ name := className, prelude, methods }] }

/-- The client for the operations of a tag. -/
def ofOperations (tag : String) (operations : List Operation) : Session Client := do
  Session.setSubject tag
  let settings ← Session.settings
  let className ← Session.claimClientName (requestedName settings tag)
  let methods ← methods operations
  let imports := sortedNames (methods.flatMap signatureNames)
  pure {
    tag, className, operations, imports
    source := (moduleOf className imports methods).text }

end Client

end ApiScribe
