import ApiScribe.Json.Number

/-!
# Reading JSON text

Strict JSON: nothing follows the value, no comments, no trailing commas, no control characters in
strings, no surrogate without its partner, and at most 127 containers inside one another.  When a
name occurs twice in one object, the last value wins and stands where the name stood first.

A reader takes the rest of the text and returns what it read together with what is left.  The
readers of containers call each other, and each call is one step nearer to the end of the text, so
the length of the text bounds the number of calls; `Json.read?` supplies that bound.
-/

namespace ApiScribe.Json

/-- The white space that may stand between tokens. -/
def isSpace (c : Char) : Bool :=
  c = ' ' || c = '\t' || c = '\n' || c = '\r'

/-- The text without the white space it begins with. -/
def skipSpace (cs : List Char) : List Char :=
  cs.dropWhile isSpace

/-- The number of four hexadecimal digits. -/
def codeUnit? (a b c d : Char) : Option Nat :=
  Numeral.digits? 16 [a, b, c, d]

/-- The character that a one-letter escape stands for. -/
def escaped? (c : Char) : Option Char :=
  if c = '\x22' || c = '\x5c' || c = '/' then some c
  else if c = 'b' then some '\x08'
  else if c = 'f' then some '\x0c'
  else if c = 'n' then some '\n'
  else if c = 'r' then some '\r'
  else if c = 't' then some '\t'
  else none

/-- The rest of a string after its opening quote, and the text after its closing quote. -/
def stringRest? : List Char → Option (List Char × List Char)
  | [] => none
  | '\x22' :: cs => some ([], cs)
  | '\x5c' :: 'u' :: a :: b :: c :: d :: cs =>
    match codeUnit? a b c d with
    | none => none
    | some high =>
      if 0xDC00 ≤ high ∧ high < 0xE000 then none
      else if 0xD800 ≤ high ∧ high < 0xDC00 then
        match cs with
        | '\x5c' :: 'u' :: e :: f :: g :: h :: cs =>
          match codeUnit? e f g h with
          | none => none
          | some low =>
            if 0xDC00 ≤ low ∧ low < 0xE000 then
              let c := Char.ofNat (0x10000 + (high - 0xD800) * 0x400 + (low - 0xDC00))
              (stringRest? cs).map fun (text, rest) => (c :: text, rest)
            else none
        | _ => none
      else (stringRest? cs).map fun (text, rest) => (Char.ofNat high :: text, rest)
  | '\x5c' :: c :: cs =>
    match escaped? c with
    | none => none
    | some c => (stringRest? cs).map fun (text, rest) => (c :: text, rest)
  | c :: cs =>
    if c.toNat < 0x20 || c = '\x5c' then none
    else (stringRest? cs).map fun (text, rest) => (c :: text, rest)

mutual

/-- The value at the beginning of a text, with room for `depth` containers inside one another. -/
def value? (depth : Nat) : (steps : Nat) → List Char → Option (Json × List Char)
  | 0, _ => none
  | steps + 1, cs =>
    match skipSpace cs with
    | 'n' :: 'u' :: 'l' :: 'l' :: rest => some (.null, rest)
    | 't' :: 'r' :: 'u' :: 'e' :: rest => some (.boolean true, rest)
    | 'f' :: 'a' :: 'l' :: 's' :: 'e' :: rest => some (.boolean false, rest)
    | '\x22' :: rest =>
      (stringRest? rest).map fun (text, rest) => (.string (String.ofList text), rest)
    | '[' :: rest =>
      if depth = 0 then none
      else match skipSpace rest with
        | ']' :: rest => some (.array [], rest)
        | _ => items? (depth - 1) steps rest []
    | '\x7b' :: rest =>
      if depth = 0 then none
      else match skipSpace rest with
        | '\x7d' :: rest => some (.object [], rest)
        | _ => members? (depth - 1) steps rest []
    | rest => (JsonNumber.read? rest).map fun (n, rest) => (.number n, rest)

/-- The rest of an array of which `done`, last first, has been read; an item comes next. -/
def items? (depth : Nat) : (steps : Nat) → List Char → List Json → Option (Json × List Char)
  | 0, _, _ => none
  | steps + 1, cs, done =>
    match value? depth steps cs with
    | none => none
    | some (item, rest) =>
      match skipSpace rest with
      | ',' :: rest => items? depth steps rest (item :: done)
      | ']' :: rest => some (.array (item :: done).reverse, rest)
      | _ => none

/-- The rest of an object of which `done`, last first, has been read; a member comes next. -/
def members? (depth : Nat) :
    (steps : Nat) → List Char → List (String × Json) → Option (Json × List Char)
  | 0, _, _ => none
  | steps + 1, cs, done =>
    match skipSpace cs with
    | '\x22' :: rest =>
      match stringRest? rest with
      | none => none
      | some (name, rest) =>
        match skipSpace rest with
        | ':' :: rest =>
          match value? depth steps rest with
          | none => none
          | some (value, rest) =>
            let done := (String.ofList name, value) :: done
            match skipSpace rest with
            | ',' :: rest => members? depth steps rest done
            | '\x7d' :: rest => some (.object done.reverse, rest)
            | _ => none
        | _ => none
    | _ => none

end

/-- The containers that may stand inside one another. -/
def depthLimit : Nat := 127

/-- The value that a text spells, if it is JSON, with all members of its objects. -/
def readAll? (text : String) : Option Json :=
  let cs := text.toList
  match value? depthLimit (cs.length + 1) cs with
  | some (value, rest) => if (skipSpace rest).isEmpty then some value else none
  | none => none

mutual

/-- The value with every name once in each of its objects. -/
def merge : Json → Json
  | .array items => .array (mergeItems items)
  | .object members => .object (mergeMembers [] members)
  | value => value

/-- The values with every name once in each of their objects. -/
def mergeItems : List Json → List Json
  | [] => []
  | value :: rest => merge value :: mergeItems rest

/-- The members put into a table one after the other. -/
def mergeMembers (done : Table Json) : List (String × Json) → Table Json
  | [] => done
  | (name, value) :: rest => mergeMembers (Table.put done name (merge value)) rest

end

/-- The value that a text spells, if it is JSON. -/
def read? (text : String) : Option Json :=
  (readAll? text).map merge

end ApiScribe.Json
