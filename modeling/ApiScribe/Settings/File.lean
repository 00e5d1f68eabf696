import ApiScribe.Json.Reader
import ApiScribe.Settings.Basic
import ApiScribe.Settings.Toml
import ApiScribe.Text.LetterCase
import ApiScribe.Text.Lines
import ApiScribe.Yaml.Value

/-!
# Configuration files

Settings may come from a file in TOML, JSON or YAML, which its name tells apart.  A file sets some
of the options, each at most once and to one of its spellings, and names no others; what it does
not set keeps its default.  A blank file sets nothing, whatever its name.

In JSON the spellings may also stand in a list, in the order of the options.
-/

namespace ApiScribe

namespace Settings

/-- The settings that entries spell. -/
def ofEntries? (settings : Settings) (seen : List Setting) :
    List (String × String) → Option Settings
  | [] => some settings
  | (name, value) :: rest => do
    let setting ← Setting.ofName? name
    if seen.contains setting then none
    else do
      let settings ← setting.assign? settings value
      settings.ofEntries? (setting :: seen) rest

/-- The spelling in a JSON value: a text, or an object with that text as its only name. -/
def spellingOfJson? : Json → Option String
  | .string value => some value
  | .object [(value, .null)] => some value
  | _ => none

/-- The settings that a JSON text spells. -/
def ofJsonText? (text : String) : Option Settings := do
  match ← Json.readAll? text with
  | .object members => do
    let entries ← members.mapM fun member =>
      (spellingOfJson? member.2).map fun value => (member.1, value)
    ofEntries? {} [] entries
  | .array items =>
    if Setting.all.length < items.length then none
    else do
      let values ← items.mapM spellingOfJson?
      ofEntries? {} [] ((Setting.all.map Setting.name).zip values)
  | _ => none

/-- The text of a scalar, whatever its kind. -/
def scalarText? (anchors : List (Nat × Yaml.Tree)) (tree : Yaml.Tree) : Option String := do
  match ← Yaml.Value.follow? anchors 1 tree 0 with
  | (.scalar _ _ _ text, _) => some text
  | _ => none

/-- The spelling in a YAML tree: a scalar, or a tag of the document's own in front of nothing. -/
def spellingOfTree? (anchors : List (Nat × Yaml.Tree)) (tree : Yaml.Tree) : Option String := do
  match ← Yaml.Value.follow? anchors 1 tree 0 with
  | (.scalar _ tag plain text, _) =>
    match tag.bind Yaml.Value.ownTag? with
    | some name =>
      if plain && (text.isEmpty || Yaml.Value.isNullWord text) then some name else none
    | none => some text
  | _ => none

/-- The entries of a YAML mapping. -/
def entriesOfTree? (anchors : List (Nat × Yaml.Tree)) :
    List (Yaml.Tree × Yaml.Tree) → Option (List (String × String))
  | [] => some []
  | (key, value) :: rest => do
    let name ← scalarText? anchors key
    let value ← spellingOfTree? anchors value
    let others ← entriesOfTree? anchors rest
    pure ((name, value) :: others)

/-- The settings that a YAML text spells. -/
def ofYamlText? (text : String) : Option Settings := do
  match ← Yaml.Tree.ofText? text with
  | none => pure {}
  | some tree =>
    match tree with
    | .mapping _ _ entries => do
      let entries ← entriesOfTree? tree.anchored entries
      ofEntries? {} [] entries
    | .scalar _ _ true "" => pure {}
    | _ => none

/-- The settings that a TOML text spells. -/
def ofTomlText? (text : String) : Option Settings := do
  ofEntries? {} [] (← Toml.read? text)

end Settings

/-- The causes for which a configuration file cannot be used. -/
inductive ConfigurationError where
  /-- The file cannot be read, for a given reason. -/
  | unreadable (path reason : String)
  /-- The name of the file tells no known format. -/
  | unsupportedFormat (extension path : String)
  /-- The file does not spell settings. -/
  | invalid (path : String)
deriving DecidableEq, Repr, Inhabited

/-- The explanation of a cause. -/
def ConfigurationError.message : ConfigurationError → String
  | .unreadable path reason => "Failed to read config " ++ path ++ ": " ++ reason
  | .unsupportedFormat extension path =>
    "Unsupported config format `" ++ extension ++ "` for " ++ path ++
      "; use .toml, .json, .yaml or .yml"
  | .invalid path => "Invalid config " ++ path

namespace Settings

/-- The last part of a path. -/
def lastPart (path : String) : List Char :=
  ((Text.words (fun c => c = '/') path.toList).filter fun part => part ≠ ['.']).getLastD []

/-- What follows the last point in the name of a file, in small letters; a point at the beginning of
the name does not count. -/
def extension (path : String) : String :=
  let name := lastPart path
  if name = ['.', '.'] then ""
  else
    let tail := (name.reverse.takeWhile fun c => c ≠ '.').reverse
    if tail.length + 1 < name.length then String.ofList (Text.asciiLowerText tail) else ""

/-- The settings that the text of a file spells. -/
def ofFile (path text : String) : Except ConfigurationError Settings :=
  if (Text.trim text.toList).isEmpty then .ok {}
  else
    let found := match extension path with
      | "toml" => some (ofTomlText? text)
      | "json" => some (ofJsonText? text)
      | "yaml" => some (ofYamlText? text)
      | "yml" => some (ofYamlText? text)
      | _ => none
    match found with
    | some (some settings) => .ok settings
    | some none => .error (.invalid path)
    | none => .error (.unsupportedFormat (extension path) path)

end Settings

end ApiScribe
