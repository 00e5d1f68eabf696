import ApiScribe.Number.Numeral
import ApiScribe.Table

/-!
# Settings in TOML

The part of TOML that settings need: lines with a key, an equals sign and a string, and between
them empty lines and comments.  Keys are bare or quoted.  Strings stand in single quotes, where
every character is itself, or in double quotes, where a backslash begins an escape; with three
quotes on either side they may run over several lines.  Texts with anything else have no entries.
-/

namespace ApiScribe.Toml

/-- The characters of bare keys. -/
def isBareChar (c : Char) : Bool :=
  Text.isAsciiLetter c || Text.isAsciiDigit c || c = '_' || c = '-'

/-- Is the character a blank inside a line? -/
def isSpace (c : Char) : Bool :=
  c = ' ' || c = '\t'

/-- May the character stand in strings and comments? -/
def isTextChar (c : Char) : Bool :=
  c = '\t' || (0x20 ≤ c.toNat && c.toNat ≠ 0x7F)

/-- The text without the blanks it begins with. -/
def skipSpace (cs : List Char) : List Char :=
  cs.dropWhile isSpace

/-- The character that a one-letter escape stands for. -/
def escaped? (c : Char) : Option Char :=
  match c with
  | 'b' => some '\x08'
  | 't' => some '\t'
  | 'n' => some '\n'
  | 'f' => some '\x0c'
  | 'r' => some '\r'
  | '\x22' => some '\x22'
  | '\x5c' => some '\x5c'
  | _ => none

/-- The character that an escape stands for and the text behind it. -/
def escape? : List Char → Option (Char × List Char)
  | [] => none
  | c :: cs =>
    if c = 'u' || c = 'U' then
      let width := if c = 'u' then 4 else 8
      let digits := cs.take width
      if digits.length ≠ width then none
      else (Numeral.digits? 16 digits).bind fun n =>
        if (0xD800 ≤ n ∧ n ≤ 0xDFFF) ∨ 0x10FFFF < n then none
        else some (Char.ofNat n, cs.drop width)
    else (escaped? c).map fun c => (c, cs)

/-- The rest of a string on one line, after what was read of it, and the text behind it. -/
def lineString? (quote : Char) :
    (steps : Nat) → List Char → List Char → Option (List Char × List Char)
  | 0, _, _ => none
  | steps + 1, done, cs =>
    match cs with
    | [] => none
    | c :: cs =>
      if c = quote then some (done.reverse, cs)
      else if c = '\x5c' && quote = '\x22' then
        match escape? cs with
        | some (c, cs) => lineString? quote steps (c :: done) cs
        | none => none
      else if isTextChar c then lineString? quote steps (c :: done) cs
      else none

/-- The rest of a string on several lines, after what was read of it, and the text behind it.  Up to
two quotes may stand in front of the closing ones. -/
def longString? (quote : Char) :
    (steps : Nat) → List Char → List Char → Option (List Char × List Char)
  | 0, _, _ => none
  | steps + 1, done, cs =>
    match cs with
    | [] => none
    | c :: cs =>
      if c = quote then
        let more := (cs.takeWhile fun d => d = quote).length
        if more < 2 then longString? quote steps (c :: done) cs
        else if 4 < more then none
        else some ((List.replicate (more - 2) quote ++ done).reverse, cs.drop more)
      else if c = '\x5c' && quote = '\x22' then
        let behind := skipSpace cs
        if behind.head? = some '\n' then
          longString? quote steps done (behind.dropWhile fun d => isSpace d || d = '\n')
        else match escape? cs with
          | some (c, cs) => longString? quote steps (c :: done) cs
          | none => none
      else if c = '\n' || isTextChar c then longString? quote steps (c :: done) cs
      else none

/-- The string at the beginning of a text, and the text behind it. -/
def string? (long : Bool) : List Char → Option (List Char × List Char)
  | [] => none
  | quote :: cs =>
    if quote = '\x22' || quote = '\x27' then
      if long && cs.take 2 = [quote, quote] then
        let cs := cs.drop 2
        let cs := if cs.head? = some '\n' then cs.tail else cs
        longString? quote (cs.length + 1) [] cs
      else lineString? quote (cs.length + 1) [] cs
    else none

/-- The key at the beginning of a text, and the text behind it. -/
def key? (cs : List Char) : Option (List Char × List Char) :=
  match string? false cs with
  | some read => some read
  | none =>
    let key := cs.takeWhile isBareChar
    if key.isEmpty then none else some (key, cs.drop key.length)

/-- The text behind the rest of a line that may only hold a comment. -/
def lineEnd? (cs : List Char) : Option (List Char) :=
  let cs := skipSpace cs
  let cs := if cs.head? = some '#' then cs.tail.dropWhile isTextChar else cs
  match cs with
  | [] => some []
  | '\n' :: cs => some cs
  | _ => none

/-- The entries of the rest of a text, after those that were read. -/
def entries? : (steps : Nat) → Table String → List Char → Option (Table String)
  | 0, _, _ => none
  | steps + 1, done, cs =>
    let start := skipSpace cs
    match start with
    | [] => some done
    | _ =>
      match lineEnd? start with
      | some cs => entries? steps done cs
      | none => do
        let (key, cs) ← key? start
        match skipSpace cs with
        | '=' :: cs => do
          let (value, cs) ← string? true (skipSpace cs)
          let cs ← lineEnd? cs
          let key := String.ofList key
          if (done.get? key).isSome then none
          else entries? steps (done ++ [(key, String.ofList value)]) cs
        | _ => none

/-- The text with its line ends brought to line feeds. -/
def normalizeBreaks : List Char → List Char
  | [] => []
  | '\r' :: '\n' :: cs => '\n' :: normalizeBreaks cs
  | c :: cs => c :: normalizeBreaks cs

/-- The entries of a text, none of which may have the key of another. -/
def read? (text : String) : Option (Table String) :=
  let cs := normalizeBreaks text.toList
  let cs := if cs.head?.any (fun c => c.toNat = 0xFEFF) then cs.tail else cs
  entries? (cs.length + 1) [] cs

end ApiScribe.Toml
