import ApiScribe.Text.LetterCase
import ApiScribe.Text.Lines

/-!
# Names in other spellings

The names of a document become names of a program in several spellings.  Words are the runs of
letters and digits of any script; what stands between them is dropped and shows only in the
capital letter with which the next word begins.

* `pascalCase` joins words that begin with a capital; a word without small letters counts as an
  acronym and keeps only its first capital (`ID` becomes `Id`);
* `camelCase` does the same with a small first letter, and keeps leading underscores and dollars;
* `snakeCase` is a common form of names in camel case and names with underscores or hyphens, for
  comparing them;
* `identifier` is a name that a program accepts: underscores and dollars stay, a leading digit and
  the reserved words get an underscore in front.
-/

namespace ApiScribe.Naming

/-- The word with a capital at its beginning. -/
def capitalizeChars : List Char → List Char
  | [] => []
  | c :: cs => Text.upper c ++ cs

/-- The word with a capital at its beginning. -/
def capitalize (name : String) : String :=
  String.ofList (capitalizeChars name.toList)

/-- Is the character none of a word? -/
def isGap (c : Char) : Bool :=
  !Text.isAlphanumeric c

/-- A word in Pascal case. -/
def pascalWord : List Char → List Char
  | [] => []
  | c :: cs =>
    let isAcronym := (c :: cs).any Text.isAlphabetic && !(c :: cs).any Text.isLowercase
    Text.upper c ++ (if isAcronym then Text.lowerText cs else cs)

/-- A name in Pascal case. -/
def pascalChars (cs : List Char) : List Char :=
  (Text.words isGap cs).flatMap pascalWord

/-- A name in Pascal case. -/
def pascalCase (name : String) : String :=
  String.ofList (pascalChars name.toList)

/-- Underscores and dollars, which camel case keeps in front. -/
def isMark (c : Char) : Bool :=
  c = '_' || c = '$'

/-- A name in camel case; one without words is kept. -/
def camelChars (cs : List Char) : List Char :=
  match pascalChars (cs.dropWhile isMark) with
  | [] => cs
  | c :: rest => cs.takeWhile isMark ++ (Text.lower c ++ rest)

/-- A name in camel case; one without words is kept. -/
def camelCase (name : String) : String :=
  String.ofList (camelChars name.toList)

/-- ASCII capitals. -/
def isAsciiUpper (c : Char) : Bool :=
  'A' ≤ c && c ≤ 'Z'

/-- One character in snake case, away from the beginning of the name. -/
def snakeChar (c : Char) : List Char :=
  if isAsciiUpper c then ['_', Text.asciiLower c] else if c = '-' then ['_'] else [c]

/-- A name in snake case. -/
def snakeChars : List Char → List Char
  | [] => []
  | c :: cs => (if isAsciiUpper c then [Text.asciiLower c] else snakeChar c) ++ cs.flatMap snakeChar

/-- A name in snake case. -/
def snakeCase (name : String) : String :=
  String.ofList (snakeChars name.toList)

/-- The words that a program may not use as names. -/
def reservedWords : List String :=
  ["break", "case", "catch", "class", "const", "continue", "debugger", "default", "delete", "do",
    "else", "enum", "export", "extends", "false", "finally", "for", "function", "if", "import",
    "in", "instanceof", "new", "null", "return", "super", "switch", "this", "throw", "true", "try",
    "typeof", "var", "void", "while", "with", "yield", "let", "static", "implements", "interface",
    "package", "private", "protected", "public", "await", "async"]

/-- Is the name a reserved word? -/
def isReserved (name : String) : Bool :=
  reservedWords.contains name

/-- Is the character neither a letter or digit nor an underscore or dollar? -/
def isSeparator (c : Char) : Bool :=
  !(Text.isAlphanumeric c || isMark c)

/-- The words of a name in one, each but the first with a capital. -/
def joinWords : List (List Char) → List Char
  | [] => []
  | word :: rest => word ++ rest.flatMap capitalizeChars

/-- Does the text begin with an ASCII digit? -/
def startsWithDigit : List Char → Bool
  | [] => false
  | c :: _ => Text.isAsciiDigit c

/-- A name that a program accepts. -/
def identifier (name : String) : String :=
  match joinWords (Text.words isSeparator name.toList) with
  | [] => "_empty"
  | cs =>
    let name := String.ofList (if startsWithDigit cs then '_' :: cs else cs)
    if isReserved name then "_" ++ name else name

end ApiScribe.Naming
