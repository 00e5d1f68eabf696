import ApiScribe.CommandLine.Run

/-!
# The program

Reads the arguments, runs the command on the files of the machine, and passes on what it says.
With the flag `--verbose` the diagnostics are listed as well.
-/

namespace ApiScribe

/-- The reason of a failed access to a file of the machine. -/
def FileError.ofIO : IO.Error → FileError
  | .noFileOrDirectory .. => .notFound
  | .alreadyExists .. => .exists
  | .inappropriateType .. => .notDirectory
  | error => .other (toString error)

/-- The outcome of an access to a file of the machine. -/
def attempt {α : Type} (access : IO α) : IO (Except FileError α) := do
  match ← access.toBaseIO with
  | .ok value => pure (.ok value)
  | .error error => pure (.error (FileError.ofIO error))

instance : FileAccess IO where
  read path := attempt (IO.FS.readFile path)
  createDirectories path := attempt (IO.FS.createDirAll path)
  write path content := attempt (IO.FS.writeFile path content)

namespace CommandLine

/-- How the program is used. -/
def usage : String :=
  "Usage: apiscribe [-v] generate -i FILE -o DIR [-c FILE] [OPTIONS]\n" ++
  "       apiscribe [-v] check -i FILE [-c FILE] [--deny-warnings] [OPTIONS]\n"

/-- Carry out what the arguments ask for; the exit code. -/
def perform (arguments : List String) : IO UInt32 := do
  match Request.ofArguments arguments with
  | .help => do
    IO.print usage
    pure 0
  | .version => do
    IO.println "apiscribe"
    pure 0
  | .refused => do
    IO.eprint usage
    pure 2
  | .run verbose command => do
    let outcome ← command.run (m := IO)
    match verbose, outcome with
    | true, .success _ diagnostics =>
      diagnostics.forM fun diagnostic => IO.eprintln diagnostic.text
    | _, _ => pure ()
    IO.print outcome.output
    IO.eprint outcome.errors
    pure outcome.code.toUInt32

end CommandLine

end ApiScribe

/-- The entry of the program. -/
def main (arguments : List String) : IO UInt32 :=
  ApiScribe.CommandLine.perform arguments
