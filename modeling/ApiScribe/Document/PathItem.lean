import ApiScribe.Schema.OfJson

/-!
# Operations as they are written

The records of a document that declare operations: parameters, request bodies, responses, the
operations themselves and the path items that hold them.  Each is read as a record; where a
reference may stand instead of the record, an object with a textual `$ref` is one, whatever else
it contains.
-/

namespace ApiScribe

/-- A record or a reference to one. -/
inductive OrReference (α : Type) where
  | reference (pointer : String)
  | item (value : α)
deriving Inhabited

/-- The methods of requests. -/
inductive HttpMethod where
  | get
  | put
  | post
  | delete
  | options
  | head
  | patch
  | trace
deriving DecidableEq, Repr, Inhabited

/-- The name of a method in requests. -/
def HttpMethod.text : HttpMethod → String
  | .get => "GET"
  | .put => "PUT"
  | .post => "POST"
  | .delete => "DELETE"
  | .options => "OPTIONS"
  | .head => "HEAD"
  | .patch => "PATCH"
  | .trace => "TRACE"

/-- A parameter as declared. -/
structure ParameterRecord where
  name : String
  location : String
  required : Bool
  description : Option String
  schema : Option Schema
deriving Inhabited

/-- The content of one media type; it may leave out its schema. -/
structure MediaContent where
  schema : Option Schema
deriving Inhabited

/-- A request body as declared. -/
structure BodyRecord where
  required : Bool
  content : Option (Table MediaContent)
deriving Inhabited

/-- A response as declared. -/
structure ResponseRecord where
  description : Option String
  content : Option (Table MediaContent)
deriving Inhabited

/-- An operation as declared. -/
structure OperationRecord where
  operationId : Option String
  summary : Option String
  tags : Option (List String)
  parameters : Option (List (OrReference ParameterRecord))
  body : Option (OrReference BodyRecord)
  responses : Table (OrReference ResponseRecord)
deriving Inhabited

/-- The operations of one path, in the order of their methods, and the parameters that all of them
share. -/
structure PathItem where
  operations : List (HttpMethod × OperationRecord)
  parameters : Option (List (OrReference ParameterRecord))
deriving Inhabited

/-- A reference, or else a record. -/
def OrReference.ofJson? {α : Type} (decode : Json → Option α) (value : Json) :
    Option (OrReference α) :=
  match value.member? "$ref" with
  | some (.string pointer) => some (.reference pointer)
  | _ => (decode value).map .item

/-- Read a parameter. -/
def ParameterRecord.ofJson? (value : Json) : Option ParameterRecord := do
  let fields ← value.record? ["name", "in", "required", "description", "schema"] 5
  pure {
    name := ← Json.requiredField? fields "name" Json.string?
    location := ← Json.requiredField? fields "in" Json.string?
    required := ← Json.defaultField? fields "required" false Json.boolean?
    description := ← Json.optionalField? fields "description" Json.string?
    schema := ← Json.optionalField? fields "schema" Schema.ofJson? }

/-- Read the content of a media type. -/
def MediaContent.ofJson? (value : Json) : Option MediaContent := do
  let fields ← value.record? ["schema"] 1
  pure { schema := ← Json.optionalField? fields "schema" Schema.ofJson? }

/-- Read a request body. -/
def BodyRecord.ofJson? (value : Json) : Option BodyRecord := do
  let fields ← value.record? ["required", "content"] 2
  pure {
    required := ← Json.defaultField? fields "required" false Json.boolean?
    content := ← Json.optionalField? fields "content" (Json.tableOf? MediaContent.ofJson?) }

/-- Read a response. -/
def ResponseRecord.ofJson? (value : Json) : Option ResponseRecord := do
  let fields ← value.record? ["description", "content"] 2
  pure {
    description := ← Json.optionalField? fields "description" Json.string?
    content := ← Json.optionalField? fields "content" (Json.tableOf? MediaContent.ofJson?) }

/-- Read a list of parameters or references to parameters. -/
def ParameterRecord.listOfJson? : Json → Option (List (OrReference ParameterRecord)) :=
  Json.listOf? (OrReference.ofJson? ParameterRecord.ofJson?)

/-- Read an operation. -/
def OperationRecord.ofJson? (value : Json) : Option OperationRecord := do
  let fields ← value.record?
    ["operationId", "summary", "tags", "parameters", "requestBody", "responses"] 5
  pure {
    operationId := ← Json.optionalField? fields "operationId" Json.string?
    summary := ← Json.optionalField? fields "summary" Json.string?
    tags := ← Json.optionalField? fields "tags" (Json.listOf? Json.string?)
    parameters := ← Json.optionalField? fields "parameters" ParameterRecord.listOfJson?
    body := ← Json.optionalField? fields "requestBody"
      (OrReference.ofJson? BodyRecord.ofJson?)
    responses := ← Json.defaultField? fields "responses" []
      (Json.tableOf? (OrReference.ofJson? ResponseRecord.ofJson?)) }

namespace PathItem

/-- The methods in the order in which their operations are taken, with the fields that declare
them. -/
def methods : List (HttpMethod × String) :=
  [(.get, "get"), (.put, "put"), (.post, "post"), (.delete, "delete"), (.options, "options"),
    (.head, "head"), (.patch, "patch"), (.trace, "trace")]

/-- Read the operations that fields declare. -/
def operations? (fields : Table Json) :
    List (HttpMethod × String) → Option (List (HttpMethod × OperationRecord))
  | [] => some []
  | (method, field) :: rest => do
    let operation ← Json.optionalField? fields field OperationRecord.ofJson?
    let others ← operations? fields rest
    match operation with
    | some operation => pure ((method, operation) :: others)
    | none => pure others

/-- Read a path item. -/
def ofJson? (value : Json) : Option PathItem := do
  let fields ← value.record? (methods.map Prod.snd ++ ["parameters"]) 9
  pure {
    operations := ← operations? fields methods
    parameters := ← Json.optionalField? fields "parameters" ParameterRecord.listOfJson? }

end PathItem

end ApiScribe
