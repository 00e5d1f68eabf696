import ApiScribe.CommandLine.Arguments
import ApiScribe.Document.Text
import ApiScribe.Files.Access
import ApiScribe.Generation
import ApiScribe.Settings.File

/-!
# Running commands

A command reads the configuration file, if there is one, and then the document, and generates.
Whatever goes wrong until then ends the command before anything is written, so a failed generation
leaves every file as it was.  `generate` then creates the directory and writes the files in order,
and stops at the first that cannot be written.
-/

namespace ApiScribe.CommandLine

variable {m : Type → Type} [Monad m] [FileAccess m]

/-- The outcome of a command: what it says on success, and why it failed otherwise. -/
inductive Outcome where
  | success (line : String) (diagnostics : List Diagnostic)
  | failure (reason : String)
deriving DecidableEq, Repr, Inhabited

namespace Outcome

/-- The exit code. -/
def code : Outcome → Nat
  | .success .. => 0
  | .failure _ => 1

/-- The text for standard output. -/
def output : Outcome → String
  | .success line _ => line ++ "\n"
  | .failure _ => ""

/-- The text for standard error. -/
def errors : Outcome → String
  | .success .. => ""
  | .failure reason => reason ++ "\n"

end Outcome

/-- An access to a file whose failure is explained. -/
def explained {α : Type} (explain : FileError → String) (access : m (Except FileError α)) :
    ExceptT String m α := do
  match ← access with
  | .ok value => pure value
  | .error error => throw (explain error)

namespace Inputs

/-- The settings in effect. -/
def settings (inputs : Inputs) : ExceptT String m Settings := do
  let settings ← match inputs.configuration with
    | none => pure {}
    | some path => do
      let text ← explained (fun error => (ConfigurationError.unreadable path error.message).message)
        (FileAccess.read path)
      match Settings.ofFile path text with
      | .ok settings => pure settings
      | .error error => throw error.message
  pure (inputs.choices.foldl Settings.choose settings)

/-- The document. -/
def readDocument (inputs : Inputs) : ExceptT String m Document := do
  let text ← explained (fun error => "Failed to read " ++ inputs.document ++ ": " ++ error.message)
    (FileAccess.read inputs.document)
  match Document.read text with
  | .ok document => pure document
  | .error error => throw (inputs.document ++ ": " ++ error.message)

/-- What is generated. -/
def generated (inputs : Inputs) : ExceptT String m Output := do
  let settings ← inputs.settings
  let document ← inputs.readDocument
  match generate document settings with
  | .ok output => pure output
  | .error error => throw (inputs.document ++ ": " ++ error.message)

end Inputs

/-- Write files to a directory, in order. -/
def writeFiles (directory : String) : Table String → ExceptT String m Unit
  | [] => pure ()
  | (name, content) :: rest => do
    let path := joinPath directory name
    explained (fun error => "Failed to write " ++ path ++ ": " ++ error.message)
      (FileAccess.write path content)
    writeFiles directory rest

/-- The line about written files. -/
def generatedLine (directory : String) (output : Output) : String :=
  "Generated " ++ toString output.files.length ++ " files in " ++ directory

/-- The line about what would be generated. -/
def checkedLine (document : String) (output : Output) : String :=
  document ++ ": " ++ toString output.files.length ++ " files, " ++
    toString output.clients.length ++ " clients, " ++
    toString output.diagnostics.length ++ " diagnostic(s)"

/-- The reason to fail for diagnostics. -/
def deniedReason (document : String) (output : Output) : String :=
  document ++ ": " ++ toString output.diagnostics.length ++ " diagnostic(s) reported"

namespace Command

/-- Run a command up to the line that it says. -/
def line : Command → ExceptT String m (String × List Diagnostic)
  | .generate inputs directory => do
    let output ← inputs.generated
    explained
      (fun error =>
        "Failed to create output directory " ++ directory ++ ": " ++ error.message)
      (FileAccess.createDirectories directory)
    writeFiles directory output.files
    pure (generatedLine directory output, output.diagnostics)
  | .check inputs denyWarnings => do
    let output ← inputs.generated
    if denyWarnings && !output.diagnostics.isEmpty then
      throw (deniedReason inputs.document output)
    else pure (checkedLine inputs.document output, output.diagnostics)

/-- Run a command. -/
def run (command : Command) : m Outcome := do
  match ← command.line.run with
  | .ok (line, diagnostics) => pure (.success line diagnostics)
  | .error reason => pure (.failure reason)

end Command

end ApiScribe.CommandLine
