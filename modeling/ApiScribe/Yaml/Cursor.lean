import ApiScribe.Text.Letters

/-!
# Characters and places of a YAML text

A YAML text is read with a cursor, which knows the characters that are left and the line and the
column of the first of them, because indentation is measured in columns.  All line ends are
brought to line feeds before; the separators of lines and of paragraphs end lines too, and stay.
-/

namespace ApiScribe.Yaml

/-- The byte order mark. -/
def byteOrderMark : Char := Char.ofNat 0xFEFF

/-- May the character occur in a YAML text? -/
def isAllowed (c : Char) : Bool :=
  let n := c.toNat
  n == 9 || n == 0xA || n == 0xD || (0x20 ≤ n && n ≤ 0x7E) || n == 0x85
    || (0xA0 ≤ n && n ≤ 0xD7FF) || (0xE000 ≤ n && n ≤ 0xFFFD) || 0x10000 ≤ n

/-- Does the character end a line? -/
def isBreak (c : Char) : Bool :=
  c = '\n' || c.toNat == 0x2028 || c.toNat == 0x2029

/-- Is the character a blank inside a line? -/
def isBlank (c : Char) : Bool :=
  c = ' ' || c = '\t'

/-- The text with its line ends brought to line feeds. -/
def normalizeBreaks : List Char → List Char
  | [] => []
  | '\r' :: '\n' :: cs => '\n' :: normalizeBreaks cs
  | c :: cs =>
    (if c = '\r' || c.toNat == 0x85 then '\n' else c) :: normalizeBreaks cs

/-- The characters that names of anchors and directives consist of. -/
def isNameChar (c : Char) : Bool :=
  Text.isAsciiLetter c || Text.isAsciiDigit c || c = '_' || c = '-'

/-- Does the text begin with a blank or the end of a line, or is it at its end? -/
def isGapNext : List Char → Bool
  | [] => true
  | c :: _ => isBlank c || isBreak c

/-- Does the text begin with the end of a line, or is it at its end? -/
def isLineEnd : List Char → Bool
  | [] => true
  | c :: _ => isBreak c

/-- Does the text begin with the given character, followed by a blank or the end of a line? -/
def isIndicator (c : Char) : List Char → Bool
  | [] => false
  | d :: cs => c = d && isGapNext cs

/-- A place in a text. -/
structure Cursor where
  rest : List Char
  index : Nat := 0
  line : Nat := 0
  column : Nat := 0
deriving Inhabited

namespace Cursor

/-- The place after the next character. -/
def next (cursor : Cursor) : Cursor :=
  match cursor.rest with
  | [] => cursor
  | c :: cs =>
    if isBreak c then ⟨cs, cursor.index + 1, cursor.line + 1, 0⟩
    else ⟨cs, cursor.index + 1, cursor.line, cursor.column + 1⟩

/-- The place after a number of characters of the same line. -/
def skip (cursor : Cursor) (count : Nat) : Cursor :=
  ⟨cursor.rest.drop count, cursor.index + count, cursor.line, cursor.column + count⟩

/-- The place after the characters that satisfy `p`, which no end of a line does. -/
def skipWhile (cursor : Cursor) (p : Char → Bool) : Cursor :=
  cursor.skip (cursor.rest.takeWhile p).length

/-- The place at the end of the line. -/
def skipLine (cursor : Cursor) : Cursor :=
  cursor.skipWhile fun c => !isBreak c

/-- Is there a mark between documents here: three equal characters at the beginning of a line? -/
def atMark (cursor : Cursor) (c : Char) : Bool :=
  cursor.column == 0 && match cursor.rest with
    | x :: y :: z :: rest => x = c && y = c && z = c && isGapNext rest
    | _ => false

/-- Does a document start or end here? -/
def atDocumentMark (cursor : Cursor) : Bool :=
  cursor.atMark '-' || cursor.atMark '.'

end Cursor

end ApiScribe.Yaml
