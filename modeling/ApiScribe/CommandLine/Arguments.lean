import ApiScribe.Settings.Basic
import ApiScribe.Text.Lines

/-!
# Arguments

The two commands, and how they are read from the arguments of the program.  `generate` writes the
generated files to a directory, and `check` only says what would be generated.

An option with two dashes has a name and may carry its value after an equals sign; an option with
one dash is a letter, and several letters may share the dash.  An option that takes a value and
carries none takes the next argument, which must not look like an option.  Every option may be
given once, and its value must be usable.  Two dashes alone end the options; since nothing but
options is expected, nothing may follow them.

A request for help or for the version wins over everything that comes after it.
-/

namespace ApiScribe.CommandLine

/-- What a command works on. -/
structure Inputs where
  /-- The path of the document. -/
  document : String
  /-- The path of the configuration file. -/
  configuration : Option String := none
  /-- The choices that take precedence over those of the configuration file. -/
  choices : List Choice := []
deriving DecidableEq, Repr, Inhabited

/-- The commands. -/
inductive Command where
  | generate (inputs : Inputs) (directory : String)
  | check (inputs : Inputs) (denyWarnings : Bool)
deriving DecidableEq, Repr, Inhabited

/-- The names of the commands. -/
inductive Verb where
  | generate
  | check
deriving DecidableEq, Repr, Inhabited

/-- The command name that an argument is. -/
def Verb.ofText? : String → Option Verb
  | "generate" => some .generate
  | "check" => some .check
  | _ => none

/-- The options that take a value. -/
inductive ValueOption where
  | input
  | output
  | configuration
  | setting (setting : Setting)
deriving DecidableEq, Repr, Inhabited

/-- The options of a command. -/
inductive CommandOption where
  | help
  | verbose
  | denyWarnings
  | value (option : ValueOption)
deriving DecidableEq, Repr, Inhabited

/-- The name of the option for a setting. -/
def settingOption : Setting → String
  | .dateType => "date-type"
  | .enumType => "enum-type"
  | .propertyNameStyle => "property-name-style"
  | .nullableType => "nullable-type"
  | .clientSuffix => "client-suffix"
  | .methodNameStyle => "method-name-style"

namespace CommandOption

/-- The option of a command with a given name. -/
def ofName? (verb : Verb) (name : String) : Option CommandOption :=
  match name, verb with
  | "help", _ => some .help
  | "verbose", _ => some .verbose
  | "input", _ => some (.value .input)
  | "config", _ => some (.value .configuration)
  | "output", .generate => some (.value .output)
  | "deny-warnings", .check => some .denyWarnings
  | _, _ =>
    (Setting.all.find? fun setting => settingOption setting = name).map fun setting =>
      .value (.setting setting)

/-- The option of a command with a given letter. -/
def ofLetter? (verb : Verb) (letter : Char) : Option CommandOption :=
  match letter, verb with
  | 'h', _ => some .help
  | 'v', _ => some .verbose
  | 'i', _ => some (.value .input)
  | 'c', _ => some (.value .configuration)
  | 'o', .generate => some (.value .output)
  | _, _ => none

end CommandOption

/-- What the arguments ask for. -/
inductive Request where
  | run (verbose : Bool) (command : Command)
  | help
  | version
  | refused
deriving DecidableEq, Repr, Inhabited

/-- The options that a command was given so far. -/
structure Given where
  verbose : Bool := false
  denyWarnings : Bool := false
  input : Option String := none
  output : Option String := none
  configuration : Option String := none
  choices : List Choice := []
deriving DecidableEq, Repr, Inhabited

/-- Why arguments are not read to their end. -/
inductive Stop where
  | help
  | refused
deriving DecidableEq, Repr, Inhabited

namespace Given

/-- A path, given for the first time and not empty. -/
def path (known : Option String) (value : String) : Except Stop (Option String) :=
  if known.isSome || value.isEmpty then .error .refused else .ok (some value)

/-- Take an option with a value. -/
def assign (given : Given) (option : ValueOption) (value : String) : Except Stop Given :=
  match option with
  | .input => (path given.input value).map fun path => { given with input := path }
  | .output => (path given.output value).map fun path => { given with output := path }
  | .configuration =>
    (path given.configuration value).map fun path => { given with configuration := path }
  | .setting setting =>
    if given.choices.any fun choice => choice.setting = setting then .error .refused
    else match Choice.ofText? setting value with
      | some choice => .ok { given with choices := given.choices ++ [choice] }
      | none => .error .refused

/-- Take an option that carries no value; one that needs a value is still to get it. -/
def take (given : Given) : CommandOption → Except Stop (Given × Option ValueOption)
  | .help => .error .help
  | .verbose =>
    if given.verbose then .error .refused else .ok ({ given with verbose := true }, none)
  | .denyWarnings =>
    if given.denyWarnings then .error .refused
    else .ok ({ given with denyWarnings := true }, none)
  | .value option => .ok (given, some option)

/-- Take an option with two dashes. -/
def takeNamed (verb : Verb) (given : Given) (body : List Char) :
    Except Stop (Given × Option ValueOption) :=
  let name := body.takeWhile fun c => c ≠ '='
  match CommandOption.ofName? verb (String.ofList name), body.drop name.length with
  | none, _ => .error .refused
  | some option, [] => given.take option
  | some (.value option), _ :: value =>
    (given.assign option (String.ofList value)).map fun given => (given, none)
  | some _, _ :: _ => .error .refused

/-- Take the options whose letters share a dash.  What follows the letter of an option with a value
is the value, with or without an equals sign. -/
def takeLetters (verb : Verb) (given : Given) :
    List Char → Except Stop (Given × Option ValueOption)
  | [] => .ok (given, none)
  | letter :: rest =>
    match CommandOption.ofLetter? verb letter with
    | none => .error .refused
    | some (.value option) =>
      match rest with
      | [] => .ok (given, some option)
      | '=' :: value => (given.assign option (String.ofList value)).map fun given => (given, none)
      | value => (given.assign option (String.ofList value)).map fun given => (given, none)
    | some option =>
      match given.take option with
      | .ok (given, _) => takeLetters verb given rest
      | .error stop => .error stop

/-- Take the arguments of a command; `pending` is the option that the next argument is the value
of. -/
def takeAll (verb : Verb) (given : Given) (pending : Option ValueOption) :
    List String → Except Stop Given
  | [] => if pending.isSome then .error .refused else .ok given
  | argument :: rest =>
    match pending, argument.toList with
    | some _, '-' :: _ :: _ => .error .refused
    | some option, _ =>
      match given.assign option argument with
      | .ok given => takeAll verb given none rest
      | .error stop => .error stop
    | none, ['-', '-'] => if rest.isEmpty then .ok given else .error .refused
    | none, '-' :: '-' :: body =>
      match given.takeNamed verb body with
      | .ok (given, pending) => takeAll verb given pending rest
      | .error stop => .error stop
    | none, '-' :: letter :: letters =>
      match given.takeLetters verb (letter :: letters) with
      | .ok (given, pending) => takeAll verb given pending rest
      | .error stop => .error stop
    | none, _ => .error .refused

/-- The command for the options; what it needs must be there. -/
def command? (verb : Verb) (given : Given) : Option Command := do
  let inputs : Inputs := {
    document := ← given.input
    configuration := given.configuration
    choices := given.choices }
  match verb with
  | .generate => pure (.generate inputs (← given.output))
  | .check => pure (.check inputs given.denyWarnings)

end Given

namespace Request

/-- The command with a given name and its arguments. -/
def ofCommand (verbose : Bool) (verb : Verb) (arguments : List String) : Request :=
  match Given.takeAll verb {} none arguments with
  | .error .help => .help
  | .error .refused => .refused
  | .ok given =>
    match given.command? verb with
    | some command => .run (verbose || given.verbose) command
    | none => .refused

/-- What follows the word `help`: at most the name of a command, or the word once more. -/
def ofHelp : List String → Request
  | [] => .help
  | [topic] => if topic = "help" || (Verb.ofText? topic).isSome then .help else .refused
  | _ => .refused

/-- Read letters in front of the command: the flag, or what asks for information. -/
def ofLetters (verbose : Bool) : List Char → Except Request Bool
  | [] => .ok verbose
  | 'h' :: _ => .error .help
  | 'V' :: _ => .error .version
  | 'v' :: rest => if verbose then .error .refused else ofLetters true rest
  | _ => .error .refused

/-- Read arguments from the first on; `verbose` tells whether the flag was given already. -/
def ofRest (verbose : Bool) : List String → Request
  | [] => .refused
  | argument :: rest =>
    match Verb.ofText? argument with
    | some verb => ofCommand verbose verb rest
    | none =>
      match argument with
      | "help" => ofHelp rest
      | "--help" => .help
      | "--version" => .version
      | "--verbose" => if verbose then .refused else ofRest true rest
      | _ =>
        match argument.toList with
        | '-' :: '-' :: _ => .refused
        | '-' :: letter :: letters =>
          match ofLetters verbose (letter :: letters) with
          | .ok verbose => ofRest verbose rest
          | .error request => request
        | _ => .refused

/-- What arguments ask for. -/
def ofArguments (arguments : List String) : Request :=
  ofRest false arguments

end Request

end ApiScribe.CommandLine
