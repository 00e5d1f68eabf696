import ApiScribe.Document.Basic
import ApiScribe.Naming.Case

/-!
# Operations

An operation is what a client can call: a method and a path, the parameters that go into the path
and the query, the body if there is one, and the shape of the answer.  References are followed, so
an operation no longer depends on the document.

Parameters in other places than path and query are left out, and path parameters are required.
Only bodies and answers in JSON count.  The answer is that of the success response with the least
status code that has one.  An operation without a name of its own is named after its method and
path, and no two operations may lead to the same method name.
-/

namespace ApiScribe

/-- The places of parameters that clients fill in. -/
inductive ParameterLocation where
  | path
  | query
deriving DecidableEq, Repr, Inhabited

/-- A parameter that clients fill in. -/
structure OperationParameter where
  name : String
  location : ParameterLocation
  required : Bool
  shape : Shape
deriving Inhabited

/-- The JSON body of a request. -/
structure RequestBody where
  shape : Shape
  required : Bool
deriving Inhabited

/-- An operation that clients can call. -/
structure Operation where
  method : HttpMethod
  path : String
  id : String
  summary : Option String
  tags : List String
  parameters : List OperationParameter
  body : Option RequestBody
  response : Option Shape
deriving Inhabited

/-- The record that stands at a place, or that the reference there leads to. -/
def OrReference.resolve {α : Type} (decode : Json → Option α) (root : Json) :
    OrReference α → Except CompileError α
  | .reference pointer => Pointer.lookupAs decode root pointer
  | .item value => .ok value

namespace Operation

/-- Is the media type JSON, or built on it?  Parameters, case and blanks around it do not
matter. -/
def isJsonMediaType (mediaType : String) : Bool :=
  let essence := Text.asciiLowerText
    (Text.trim (mediaType.toList.takeWhile fun c => c ≠ ';'))
  essence = "application/json".toList || "+json".toList.isSuffixOf essence

/-- The shape of the first JSON content; content without a schema may be anything. -/
def jsonShape? (content : Option (Table MediaContent)) : Option Shape :=
  match (content.getD []).find? fun entry => isJsonMediaType entry.1 with
  | some (_, media) => some (match media.schema with
    | some schema => Shape.ofSchema schema
    | none => Shape.unknown)
  | none => none

/-- Status codes stay below this bound. -/
def statusBound : Nat := Nat.pow 2 16

/-- The responses to successful requests with their status codes, by ascending code; of responses
with the same code, the one that is declared first comes first. -/
def successResponses (responses : Table (OrReference ResponseRecord)) :
    List (OrReference ResponseRecord) :=
  let coded := responses.filterMap fun (code, response) =>
    (Numeral.below? statusBound code.toList).map fun code => (code, response)
  (List.range' 200 100).flatMap fun code =>
    (coded.filter fun entry => entry.1 = code).map Prod.snd

/-- The shape of the first response that has JSON content. -/
def firstJson (root : Json) :
    List (OrReference ResponseRecord) → Except CompileError (Option Shape)
  | [] => .ok none
  | response :: rest => do
    let response ← response.resolve ResponseRecord.ofJson? root
    match jsonShape? response.content with
    | some shape => .ok (some shape)
    | none => firstJson root rest

/-- The shape of the answer to a successful request. -/
def successShape (root : Json) (responses : Table (OrReference ResponseRecord)) :
    Except CompileError (Option Shape) :=
  firstJson root (successResponses responses)

/-- The place that a location names, if clients fill it in. -/
def locationOf? (location : String) : Option ParameterLocation :=
  match location with
  | "path" => some .path
  | "query" => some .query
  | _ => none

/-- A parameter that clients fill in, if the declared one is; without a schema it is a text. -/
def parameterOf? (declared : ParameterRecord) : Option OperationParameter :=
  (locationOf? declared.location).map fun location => {
    name := declared.name
    location
    required := declared.required || location = .path
    shape := match declared.schema with
      | some schema => Shape.ofSchema schema
      | none => Shape.string }

/-- The parameters that clients fill in. -/
def parametersOf (root : Json) :
    List (OrReference ParameterRecord) → Except CompileError (List OperationParameter)
  | [] => .ok []
  | declared :: rest => do
    let declared ← declared.resolve ParameterRecord.ofJson? root
    let others ← parametersOf root rest
    match parameterOf? declared with
    | some parameter => .ok (parameter :: others)
    | none => .ok others

/-- The JSON body, if there is one. -/
def bodyOf (root : Json) (declared : Option (OrReference BodyRecord)) :
    Except CompileError (Option RequestBody) :=
  match declared with
  | none => .ok none
  | some declared => do
    let body ← declared.resolve BodyRecord.ofJson? root
    .ok ((jsonShape? body.content).map fun shape => { shape, required := body.required })

/-- The name of an operation that has none: its method and the words of its path. -/
def synthesizedId (method : HttpMethod) (path : String) : String :=
  String.ofList (Text.asciiLowerText method.text.toList ++
    (Text.words Naming.isGap path.toList).flatMap Naming.capitalizeChars)

/-- The name of an operation: the declared one unless it is blank. -/
def idOf (method : HttpMethod) (path : String) (declared : Option String) : String :=
  match declared with
  | some id => if (Text.trim id.toList).isEmpty then synthesizedId method path else id
  | none => synthesizedId method path

/-- The operation that a path declares for a method.  The parameters of the path come first. -/
def ofRecord (root : Json) (path : String) (shared : List (OrReference ParameterRecord))
    (method : HttpMethod) (declared : OperationRecord) : Except CompileError Operation := do
  let parameters ← parametersOf root (shared ++ declared.parameters.getD [])
  let body ← bodyOf root declared.body
  let response ← successShape root declared.responses
  .ok {
    method, path
    id := idOf method path declared.operationId
    summary := declared.summary
    tags := declared.tags.getD []
    parameters, body, response }

/-- The name of the method that calls an operation. -/
def methodName (operation : Operation) : String :=
  Naming.identifier operation.id

/-- The operations of declarations with their paths, shared parameters and methods, none of which
leads to a method name in use. -/
def ofRecords (root : Json) (used : List String) :
    List (String × List (OrReference ParameterRecord) × HttpMethod × OperationRecord) →
      Except CompileError (List Operation)
  | [] => .ok []
  | (path, shared, method, declared) :: rest => do
    let operation ← ofRecord root path shared method declared
    if used.contains operation.methodName then
      .error (.duplicateOperationId operation.id method.text path)
    else do
      let others ← ofRecords root (operation.methodName :: used) rest
      .ok (operation :: others)

/-- The declarations of operations in the order of paths and methods. -/
def declarations (paths : Table PathItem) :
    List (String × List (OrReference ParameterRecord) × HttpMethod × OperationRecord) :=
  paths.flatMap fun (path, item) =>
    item.operations.map fun (method, declared) =>
      (path, item.parameters.getD [], method, declared)

/-- The operations of a document. -/
def ofDocument (document : Document) : Except CompileError (List Operation) :=
  ofRecords document.root [] (declarations document.paths)

/-- The group of operations without tags. -/
def defaultTag : String := "default"

/-- The groups that an operation belongs to. -/
def groups (operation : Operation) : List String :=
  if operation.tags.isEmpty then [defaultTag] else distinct operation.tags

/-- The operations by tag, in the order in which the tags first appear.  An operation with several
tags belongs to each of them once. -/
def byTag (operations : List Operation) : Table (List Operation) :=
  operations.foldl
    (fun table operation =>
      operation.groups.foldl (fun table tag => table.push tag operation) table)
    []

end Operation

end ApiScribe
