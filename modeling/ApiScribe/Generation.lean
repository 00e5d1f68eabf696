import ApiScribe.Client.Basic
import ApiScribe.Shape.Declaration

/-!
# Generation

From a document come a file with the declarations of all named shapes, and a file with a client
for every tag.  The declarations stand in the order of the shapes; the enumerations that were
hoisted while a shape was declared stand right in front of it.

`generate` is one session: declarations first, then clients, so that diagnostics come in that
order, and an error anywhere leaves no result.
-/

namespace ApiScribe

open TypeScript

/-- The result of a generation. -/
structure Output where
  files : Table String
  clients : List Client
  diagnostics : List Diagnostic
deriving Inhabited

namespace Output

/-- The file with the declarations. -/
def typesFile : String := "types.ts"

/-- The declarations of hoisted enumerations. -/
def inlineDeclarations : List InlineEnum → Session (List Declaration)
  | [] => pure []
  | inline :: rest => do
    let declaration ← inline.declaration
    let others ← inlineDeclarations rest
    pure (declaration :: others)

/-- The declaration of a named shape, after those of the enumerations that it hoists. -/
def shapeDeclarations (named : NamedShape) : Session (List Declaration) := do
  let known ← Session.inlineEnums
  let declaration ← Shape.declaration named.name named.shape
  let all ← Session.inlineEnums
  let inline ← inlineDeclarations (all.drop known.length)
  pure (inline ++ [declaration])

/-- The declarations of named shapes. -/
def declarationsOf : List NamedShape → Session (List Declaration)
  | [] => pure []
  | named :: rest => do
    let declared ← shapeDeclarations named
    let others ← declarationsOf rest
    pure (declared ++ others)

/-- The clients for groups of operations. -/
def clientsOf : Table (List Operation) → Session (List Client)
  | [] => pure []
  | (tag, operations) :: rest => do
    let client ← Client.ofOperations tag operations
    let others ← clientsOf rest
    pure (client :: others)

/-- The files with declarations and clients; of two files with one name, the later one counts. -/
def filesOf (declarations : List Declaration) (clients : List Client) : Table String :=
  clients.foldl (fun files client => files.put client.fileName client.source)
    [(typesFile, { types := declarations : Module }.text)]

/-- The declarations and clients of a document with the given shapes. -/
def ofShapes (document : Document) (shapes : List NamedShape) :
    Session (List Declaration × List Client) := do
  let declarations ← declarationsOf shapes
  let operations ← Session.onRoot fun _ => Operation.ofDocument document
  let clients ← clientsOf (Operation.byTag operations)
  pure (declarations, clients)

end Output

/-- Generate declarations and clients for a document. -/
def generate (document : Document) (settings : Settings) : Except CompileError Output := do
  let shapes := document.namedShapes
  let scope ← Scope.of document settings shapes
  match Output.ofShapes document shapes scope {} with
  | (.ok (declarations, clients), progress) =>
    .ok {
      files := Output.filesOf declarations clients
      clients
      diagnostics := progress.diagnostics }
  | (.error error, _) => .error error

end ApiScribe
