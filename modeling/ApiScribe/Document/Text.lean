import ApiScribe.Document.Basic
import ApiScribe.Json.Reader
import ApiScribe.Yaml.Value

/-!
# Documents as text

A document is written in JSON or in YAML.  A text whose first character, white space aside, is an
opening brace is taken for JSON, and every other text for YAML.
-/

namespace ApiScribe

/-- The notations of documents. -/
inductive Notation where
  | json
  | yaml
deriving DecidableEq, Repr, Inhabited

/-- The notation that a text is taken for. -/
def Notation.guess (text : String) : Notation :=
  if (Text.trimStart text.toList).head? = some '\x7b' then .json else .yaml

namespace Document

/-- The document that a text in a notation spells. -/
def readAs (format : Notation) (text : String) : Except LoadError Document :=
  match format with
  | .json =>
    match Json.read? text with
    | some root => ofJson root
    | none => .error .json
  | .yaml =>
    match Yaml.Value.ofText? text with
    | none => .error .yaml
    | some value =>
      match value.toJson? with
      | some root => ofJson root
      | none => .error .layout

/-- The document that a text spells. -/
def read (text : String) : Except LoadError Document :=
  readAs (Notation.guess text) text

end Document

end ApiScribe
