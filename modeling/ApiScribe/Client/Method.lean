import ApiScribe.Client.Prelude
import ApiScribe.Operation.Basic
import ApiScribe.Operation.PathTemplate
import ApiScribe.Shape.Type

/-!
# Methods of clients

An operation becomes an asynchronous method that passes the request on.  Its parameters are, in
this order: one for every placeholder of the path at its first occurrence, one for every declared
path parameter without a placeholder, the body, and one object for the whole query.  A placeholder
belongs to the declared parameter of its name, or else to the first one of the same name in snake
case; one that belongs to none is a text.

The names of the parameters are distinct, numbers being added where they are not.  Since no
optional parameter may stand in front of a required one, such a parameter is required too and
admits `undefined`.
-/

namespace ApiScribe.Client

open TypeScript

/-- A signature in the making: the names in use, the parameters so far, and the names that stand for
path parameters. -/
structure Signature where
  used : List String := []
  parameters : List TypeScript.Parameter := []
  bound : Table String := []
deriving Inhabited

/-- A signature with one more parameter, whose name is made from `base`; the name. -/
def Signature.add (signature : Signature) (base : String) (type : Ty) (optional : Bool) :
    String × Signature :=
  let name := Naming.fresh signature.used base
  (name, { signature with
    used := name :: signature.used
    parameters := signature.parameters ++ [{ name, type, optional }] })

/-- Declared parameters, each pair of location and name once.  Repetitions are reported. -/
def distinctParameters (seen : List (ParameterLocation × String)) :
    List OperationParameter → Session (List OperationParameter)
  | [] => pure []
  | parameter :: rest =>
    if seen.contains (parameter.location, parameter.name) then do
      Session.report (.duplicateParameter parameter.name)
      distinctParameters seen rest
    else do
      let others ← distinctParameters ((parameter.location, parameter.name) :: seen) rest
      pure (parameter :: others)

/-- The declared parameter that a placeholder belongs to. -/
def declaredFor? (declared : List OperationParameter) (placeholder : String) :
    Option OperationParameter :=
  match declared.find? fun parameter => parameter.name = placeholder with
  | some parameter => some parameter
  | none =>
    let snake := Naming.snakeCase placeholder
    declared.find? fun parameter => Naming.snakeCase parameter.name = snake

/-- The parameter name that a path parameter asks for. -/
def pathName (settings : Settings) (name : String) : String :=
  Naming.identifier (settings.propertyNameStyle.spell name)

/-- The name that stands for a placeholder, and the signature with it. -/
def bindPlaceholder (declared : List OperationParameter) (signature : Signature)
    (placeholder : String) : Session (String × Signature) := do
  let settings ← Session.settings
  match declaredFor? declared placeholder with
  | some parameter =>
    match signature.bound.get? parameter.name with
    | some name => pure (name, signature)
    | none => do
      let type ← parameter.shape.type none none
      let (name, signature) := signature.add (pathName settings parameter.name) type false
      pure (name, { signature with bound := signature.bound ++ [(parameter.name, name)] })
  | none => do
    Session.report (.undeclaredPathParameter placeholder)
    pure (signature.add (pathName settings placeholder) (.primitive .string) false)

/-- The expression for the value of a parameter inside a path. -/
def encoded (name : String) : Expr :=
  let call (function : String) (argument : Expr) : Expr := .call (.ident function) [] [argument]
  call "encodeURIComponent" (call "String" (.ident name))

/-- The parts of the path expression, and the signature with the parameters of its placeholders. -/
def pathParts (declared : List OperationParameter) (signature : Signature) :
    List PathSegment → Session (List TemplatePart × Signature)
  | [] => pure ([], signature)
  | .text content :: rest => do
    let (parts, signature) ← pathParts declared signature rest
    pure (.text content :: parts, signature)
  | .placeholder placeholder :: rest => do
    let (name, signature) ← bindPlaceholder declared signature placeholder
    let (parts, signature) ← pathParts declared signature rest
    pure (.value (encoded name) :: parts, signature)

/-- The signature with the path parameters that no placeholder belongs to. -/
def addUnusedPath (signature : Signature) : List OperationParameter → Session Signature
  | [] => pure signature
  | parameter :: rest =>
    if (signature.bound.get? parameter.name).isSome then addUnusedPath signature rest
    else do
      let settings ← Session.settings
      let type ← parameter.shape.type none none
      addUnusedPath (signature.add (pathName settings parameter.name) type false).2 rest

/-- The properties of the object for the query. -/
def queryProperties : List OperationParameter → Session (List Property)
  | [] => pure []
  | parameter :: rest => do
    let type ← parameter.shape.type none none
    let others ← queryProperties rest
    pure ({ name := parameter.name, type, optional := !parameter.required } :: others)

/-- The entry for the body in the options of a request, and the signature with its parameter. -/
def addBody (signature : Signature) (body : Option RequestBody) :
    Session (List (String × Expr) × Signature) :=
  match body with
  | none => pure ([], signature)
  | some body => do
    let type ← body.shape.type none none
    let (name, signature) := signature.add "body" type (!body.required)
    pure ([("body", .ident name)], signature)

/-- The entry for the query in the options of a request, and the signature with its parameter. -/
def addQuery (signature : Signature) (query : List OperationParameter) :
    Session (List (String × Expr) × Signature) :=
  if query.isEmpty then pure ([], signature)
  else do
    let properties ← queryProperties query
    let optional := !query.any fun parameter => parameter.required
    let (name, signature) := signature.add "params" (.object properties none) optional
    pure ([("query", .ident name)], signature)

/-- The parameters with every optional one that stands in front of a required one made required, and
whether any is required. -/
def requireInFront : List TypeScript.Parameter → List TypeScript.Parameter × Bool
  | [] => ([], false)
  | parameter :: rest =>
    let (rest, follows) := requireInFront rest
    if !parameter.optional then (parameter :: rest, true)
    else if follows then
      ({ parameter with optional := false, type := parameter.type.withBottom .undefined } :: rest,
        true)
    else (parameter :: rest, false)

/-- Is the part the value of an expression? -/
def isValue : TemplatePart → Bool
  | .value _ => true
  | .text _ => false

/-- The expression for a path of which the parts are given. -/
def pathExpression (path : String) (parts : List TemplatePart) : Expr :=
  if parts.any isValue then .template parts else .literal (.string path)

/-- The expression that sends a request. -/
def requestCall (method : HttpMethod) (path : Expr) (options : List (String × Expr))
    (response : Ty) : Expr :=
  .call (.member (.ident "this") "request") [response]
    ([.literal (.string method.text), path] ++
      if options.isEmpty then [] else [.object options])

/-- How diagnostics call an operation. -/
def subjectOf (operation : Operation) : String :=
  operation.method.text ++ " " ++ operation.path

/-- The type of the answer to an operation. -/
def responseType (response : Option Shape) : Session Ty :=
  match response with
  | some shape => shape.type none none
  | none => pure (.primitive .void)

/-- The method that calls an operation. -/
def method (operation : Operation) : Session Function := do
  Session.setSubject (subjectOf operation)
  let declared ← distinctParameters [] operation.parameters
  let inPath := declared.filter fun parameter => parameter.location = .path
  let inQuery := declared.filter fun parameter => parameter.location = .query
  let (parts, signature) ← pathParts inPath {} (PathSegment.ofPath operation.path)
  let signature ← addUnusedPath signature inPath
  let (bodyEntries, signature) ← addBody signature operation.body
  let (queryEntries, signature) ← addQuery signature inQuery
  let response ← responseType operation.response
  let call := requestCall operation.method (pathExpression operation.path parts)
    (queryEntries ++ bodyEntries) response
  pure {
    name := operation.methodName
    description := operation.summary
    parameters := (requireInFront signature.parameters).1
    result := some (.generic "Promise" [response])
    body := [.return (some call)]
    async := true }

end ApiScribe.Client
