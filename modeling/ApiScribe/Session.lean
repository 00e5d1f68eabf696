import ApiScribe.Binding
import ApiScribe.Diagnostic
import ApiScribe.Naming.Fresh
import ApiScribe.Settings.Basic

/-!
# Generation sessions

Everything that is generated from one document is generated in one session.  What the session
knows from the start is its `Scope`: the document, the settings, the names of the shapes and the
bindings of discriminated unions.  What it collects is its `Progress`: the enumerations that were
hoisted out of properties, the names given to client classes, and the diagnostics, each of which
is about the current subject.

`Progress.hoist` and `Progress.claimClientName` hand out names.  Both try the requested name and
then the same name with numbers from 2, and report when the name that they hand out is not the
requested one.  An enumeration that was hoisted before under one of these names, with the same
values, is not hoisted again.

A step of a session either succeeds or stops with an error, and in both cases leaves the progress
that it made.
-/

namespace ApiScribe

/-- An enumeration that was hoisted out of a property. -/
structure InlineEnum where
  name : String
  values : List EnumValue
deriving DecidableEq, Repr, Inhabited

/-- What a session knows from the start. -/
structure Scope where
  root : Json
  settings : Settings
  bindings : Table Binding
  shapeNames : List String
deriving Inhabited

/-- The scope for a document and the shapes it names. -/
def Scope.of (document : Document) (settings : Settings) (shapes : List NamedShape) :
    Except CompileError Scope := do
  let bindings ← Binding.collect document.root shapes
  pure { root := document.root, settings, bindings, shapeNames := shapes.map NamedShape.name }

/-- The binding of a shape, if a discriminated union refers to it. -/
def Scope.bindingOf? (scope : Scope) (shape : String) : Option Binding :=
  scope.bindings.get? shape

/-- What a session collects. -/
structure Progress where
  inlineEnums : List InlineEnum := []
  clientNames : List String := []
  diagnostics : List Diagnostic := []
  subject : String := ""
deriving DecidableEq, Repr, Inhabited

namespace Progress

/-- Progress with one more diagnostic about the current subject. -/
def report (progress : Progress) (kind : DiagnosticKind) : Progress :=
  { progress with diagnostics := progress.diagnostics ++ [{ subject := progress.subject, kind }] }

/-- The hoisted enumeration with a given name. -/
def inlineEnum? (progress : Progress) (name : String) : Option InlineEnum :=
  progress.inlineEnums.find? fun inline => inline.name = name

/-- May an enumeration with these values not go by the name?  A hoisted enumeration blocks its name
for other values, and a shape blocks its name altogether. -/
def blocks (progress : Progress) (shapeNames : List String) (values : List EnumValue)
    (name : String) : Bool :=
  match progress.inlineEnum? name with
  | some inline => !EnumValue.sameList inline.values values
  | none => shapeNames.contains name

/-- Hoist an enumeration, and the name that it goes by. -/
def hoist (progress : Progress) (shapeNames : List String) (requested : String)
    (values : List EnumValue) : String × Progress :=
  let bound := progress.inlineEnums.length + shapeNames.length
  let name := Naming.candidate requested
    (Naming.firstFree (progress.blocks shapeNames values) requested bound 0)
  match progress.inlineEnum? name with
  | some _ => (name, progress)
  | none =>
    let progress :=
      if name = requested then progress else progress.report (.hoistedNameCollision requested name)
    (name, { progress with inlineEnums := progress.inlineEnums ++ [{ name, values }] })

/-- Take a name for a client class, and the name that was taken. -/
def claimClientName (progress : Progress) (requested : String) : String × Progress :=
  let name := Naming.fresh progress.clientNames requested
  let progress :=
    if name = requested then progress else progress.report (.clientNameCollision requested name)
  (name, { progress with clientNames := progress.clientNames ++ [name] })

end Progress

/-- A step of a session. -/
def Session (α : Type) := Scope → Progress → Except CompileError α × Progress

namespace Session

variable {α β : Type}

/-- The step that does nothing and yields a value. -/
protected def pure (value : α) : Session α :=
  fun _ progress => (.ok value, progress)

/-- A step after another; the second is not taken when the first stops. -/
protected def bind (step : Session α) (next : α → Session β) : Session β :=
  fun scope progress =>
    match step scope progress with
    | (.ok value, progress) => next value scope progress
    | (.error error, progress) => (.error error, progress)

instance : Monad Session where
  pure := Session.pure
  bind := Session.bind

/-- The settings. -/
def settings : Session Settings :=
  fun scope progress => (.ok scope.settings, progress)

/-- The value of a computation on the document that may fail. -/
def onRoot (compute : Json → Except CompileError α) : Session α :=
  fun scope progress => (compute scope.root, progress)

/-- Make a shape or an operation the subject of the diagnostics that follow. -/
def setSubject (subject : String) : Session Unit :=
  fun _ progress => (.ok (), { progress with subject })

/-- Report about the current subject. -/
def report (kind : DiagnosticKind) : Session Unit :=
  fun _ progress => (.ok (), progress.report kind)

/-- Hoist an enumeration; the name that it goes by. -/
def hoist (requested : String) (values : List EnumValue) : Session String :=
  fun scope progress =>
    let (name, progress) := progress.hoist scope.shapeNames requested values
    (.ok name, progress)

/-- Take a name for a client class; the name that was taken. -/
def claimClientName (requested : String) : Session String :=
  fun _ progress =>
    let (name, progress) := progress.claimClientName requested
    (.ok name, progress)

/-- The binding of a shape. -/
def bindingOf? (shape : String) : Session (Option Binding) :=
  fun scope progress => (.ok (scope.bindingOf? shape), progress)

/-- The hoisted enumerations so far. -/
def inlineEnums : Session (List InlineEnum) :=
  fun _ progress => (.ok progress.inlineEnums, progress)

end Session

end ApiScribe
