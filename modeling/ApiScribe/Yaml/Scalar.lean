import ApiScribe.Number.Numeral
import ApiScribe.Yaml.Cursor

/-!
# The texts of scalars

A scalar is written plain, in single or double quotes, or as a block of lines.  All of them may
run over several lines, whose ends are folded: one line end between two lines becomes a blank, and
of several the first is dropped.  A `Fold` collects what stands between two runs of characters
until the next run shows what becomes of it.

Every reader starts behind the indicator of its scalar and returns the text with the place behind
the scalar; it answers `none` where the text is malformed.  The number of characters that are left
bounds the number of steps.
-/

namespace ApiScribe.Yaml

/-- Blanks and line ends between two runs of characters, last first. -/
structure Fold where
  blanks : List Char := []
  first : List Char := []
  more : List Char := []
  crossed : Bool := false

namespace Fold

/-- The text that stands for what was collected, last first. -/
def text (fold : Fold) : List Char :=
  if !fold.crossed then fold.blanks
  else if fold.first = ['\n'] then
    if fold.more.isEmpty then [' '] else fold.more
  else fold.more ++ fold.first

/-- The collection with one more line end. -/
def withBreak (fold : Fold) (c : Char) : Fold :=
  if fold.crossed then { fold with more := c :: fold.more }
  else { first := [c], crossed := true }

/-- The collection with one more blank; blanks at the beginning of a line do not count. -/
def withBlank (fold : Fold) (c : Char) : Fold :=
  if fold.crossed then fold else { fold with blanks := c :: fold.blanks }

end Fold

/-- The blanks and line ends from a place on, after those that were collected, and the place behind
them.  No tab may stand in the first `indent` columns of a new line. -/
def readFold? (indent : Nat) : (steps : Nat) → Fold → Cursor → Option (Fold × Cursor)
  | 0, fold, cursor => some (fold, cursor)
  | steps + 1, fold, cursor =>
    match cursor.rest with
    | [] => some (fold, cursor)
    | c :: _ =>
      if isBreak c then readFold? indent steps (fold.withBreak c) cursor.next
      else if isBlank c then
        if fold.crossed && cursor.column < indent && c = '\t' then none
        else readFold? indent steps (fold.withBlank c) cursor.next
      else some (fold, cursor)

/-- Inside brackets these characters end a plain scalar. -/
def isFlowIndicator (c : Char) : Bool :=
  c = ',' || c = '[' || c = ']' || c = '\x7b' || c = '\x7d'

/-- A run of characters of a plain scalar, last first, and the place behind it.  Inside brackets a
colon may not stand in front of another indicator. -/
def readPlainRun? (inFlow : Bool) :
    (steps : Nat) → List Char → Cursor → Option (List Char × Cursor)
  | 0, done, cursor => some (done, cursor)
  | steps + 1, done, cursor =>
    match cursor.rest with
    | [] => some (done, cursor)
    | c :: cs =>
      if isGapNext (c :: cs) then some (done, cursor)
      else if inFlow && c = ':' && (cs.head?.any fun d => isFlowIndicator d || d = '?') then none
      else if isIndicator ':' (c :: cs) || (inFlow && isFlowIndicator c) then some (done, cursor)
      else readPlainRun? inFlow steps (c :: done) cursor.next

/-- The text of a plain scalar, last first, the place behind it, and whether a line ended there.
Its lines are indented by at least `indent` columns, unless it stands inside brackets. -/
def readPlain? (inFlow : Bool) (indent : Nat) :
    (steps : Nat) → List Char → Fold → Cursor → Option (List Char × Bool × Cursor)
  | 0, done, fold, cursor => some (done, fold.crossed, cursor)
  | steps + 1, done, fold, cursor => do
    if cursor.atDocumentMark || cursor.rest.head? = some '#' then
      return (done, fold.crossed, cursor)
    let (run, after) ← readPlainRun? inFlow cursor.rest.length [] cursor
    let (done, fold) := if run.isEmpty then (done, fold) else (run ++ (fold.text ++ done), {})
    if !isGapNext after.rest || after.rest.isEmpty then
      return (done, fold.crossed, after)
    let (fold, behind) ← readFold? indent after.rest.length fold after
    if !inFlow && behind.column < indent then
      return (done, fold.crossed, behind)
    readPlain? inFlow indent steps done fold behind

/-- The character that an escape of one letter stands for. -/
def simpleEscape? (c : Char) : Option Char :=
  match c with
  | '0' => some (Char.ofNat 0)
  | 'a' => some (Char.ofNat 7)
  | 'b' => some (Char.ofNat 8)
  | 't' => some '\t'
  | '\t' => some '\t'
  | 'n' => some '\n'
  | 'v' => some (Char.ofNat 0xB)
  | 'f' => some (Char.ofNat 0xC)
  | 'r' => some '\r'
  | 'e' => some (Char.ofNat 0x1B)
  | ' ' => some ' '
  | '\x22' => some '\x22'
  | '/' => some '/'
  | '\x5c' => some '\x5c'
  | 'N' => some (Char.ofNat 0x85)
  | '_' => some (Char.ofNat 0xA0)
  | 'L' => some (Char.ofNat 0x2028)
  | 'P' => some (Char.ofNat 0x2029)
  | _ => none

/-- The number of hexadecimal digits behind an escape letter. -/
def escapeWidth? (c : Char) : Option Nat :=
  if c = 'x' then some 2 else if c = 'u' then some 4 else if c = 'U' then some 8 else none

/-- The character that an escape stands for, and how many characters the escape has after its
backslash. -/
def escape? (c : Char) (cs : List Char) : Option (Char × Nat) :=
  match escapeWidth? c with
  | some width => do
    let digits := cs.take width
    if digits.length ≠ width then none
    else do
      let n ← Numeral.digits? 16 digits
      if (0xD800 ≤ n ∧ n ≤ 0xDFFF) ∨ 0x10FFFF < n then none else some (Char.ofNat n, width + 1)
  | none => (simpleEscape? c).map fun c => (c, 1)

/-- A run of characters of a quoted scalar, last first, the place behind it, and whether an escaped
line end stands there. -/
def readQuotedRun? (quote : Char) :
    (steps : Nat) → List Char → Cursor → Option (List Char × Bool × Cursor)
  | 0, done, cursor => some (done, false, cursor)
  | steps + 1, done, cursor =>
    match cursor.rest with
    | [] => some (done, false, cursor)
    | c :: cs =>
      if isGapNext (c :: cs) then some (done, false, cursor)
      else if c = quote then
        if quote = '\x27' && cs.head? = some '\x27' then
          readQuotedRun? quote steps (c :: done) (cursor.skip 2)
        else some (done, false, cursor)
      else if quote = '\x22' && c = '\x5c' then
        match cs with
        | [] => none
        | d :: ds =>
          if isBreak d then some (done, true, cursor.next.next)
          else match escape? d ds with
            | some (e, width) => readQuotedRun? quote steps (e :: done) (cursor.skip (width + 1))
            | none => none
      else readQuotedRun? quote steps (c :: done) cursor.next

/-- The text of a quoted scalar, last first, and the place behind its closing quote. -/
def readQuoted? (quote : Char) : (steps : Nat) → List Char → Cursor → Option (List Char × Cursor)
  | 0, _, _ => none
  | steps + 1, done, cursor => do
    if cursor.atDocumentMark || cursor.rest.isEmpty then none
    else do
      let (done, escapedBreak, cursor) ← readQuotedRun? quote cursor.rest.length done cursor
      if cursor.rest.head? = some quote then some (done, cursor.next)
      else do
        let (fold, cursor) ← readFold? 0 cursor.rest.length { crossed := escapedBreak } cursor
        readQuoted? quote steps (fold.text ++ done) cursor

/-- What becomes of the line ends behind a block: the last one alone is kept, or none, or all. -/
inductive Chomping where
  | clip
  | strip
  | keep
deriving DecidableEq

/-- The chomping that a character asks for. -/
def chomping? (c : Char) : Option Chomping :=
  if c = '+' then some .keep else if c = '-' then some .strip else none

/-- The indentation that a character asks for. -/
def indentDigit? (c : Char) : Option Nat :=
  if Text.isAsciiDigit c then some (Numeral.digitValue c) else none

/-- The chomping and the indentation that the first line of a block asks for, in either order, and
the place behind them.  No block asks for no indentation. -/
def readBlockHeader? (cursor : Cursor) : Option (Chomping × Option Nat × Cursor) := do
  let (chomping, indent, width) : Chomping × Option Nat × Nat := match cursor.rest with
    | c :: cs =>
      match chomping? c, indentDigit? c with
      | some chomping, _ =>
        match cs.head?.bind indentDigit? with
        | some indent => (chomping, some indent, 2)
        | none => (chomping, none, 1)
      | none, some indent =>
        match cs.head?.bind chomping? with
        | some chomping => (chomping, some indent, 2)
        | none => (.clip, some indent, 1)
      | none, none => (.clip, none, 0)
    | [] => (.clip, none, 0)
  if indent = some 0 then none else some (chomping, indent, cursor.skip width)

/-- The empty lines from a place on, last first, and the place behind them and the indentation of
the line after them.  Without a known indentation the widest of the blank lines is returned as
well. -/
def readBlockBreaks? (indent : Option Nat) :
    (steps : Nat) → (widest : Nat) → List Char → Cursor → Option (Nat × List Char × Cursor)
  | 0, widest, done, cursor => some (widest, done, cursor)
  | steps + 1, widest, done, cursor =>
    let room := match indent with
      | some indent => indent - cursor.column
      | none => cursor.rest.length
    let cursor := cursor.skip ((cursor.rest.takeWhile fun c => c = ' ').take room).length
    let widest := max widest cursor.column
    let inIndent := match indent with
      | some indent => cursor.column < indent
      | none => true
    match cursor.rest with
    | [] => some (widest, done, cursor)
    | c :: _ =>
      if inIndent && c = '\t' then none
      else if isBreak c then readBlockBreaks? indent steps widest (c :: done) cursor.next
      else some (widest, done, cursor)

/-- The lines of a block that is indented by `indent` columns, last character first, with the end of
the last line and the empty lines after it, and the place behind them.  `lineEnd` and `breaks` are
those before the next line; `wasBlank` says whether the line before began with a blank. -/
def readBlockLines? (folded : Bool) (indent : Nat) :
    (steps : Nat) → (wasBlank : Bool) → (done lineEnd breaks : List Char) → Cursor →
      Option (List Char × List Char × List Char × Cursor)
  | 0, _, done, lineEnd, breaks, cursor => some (done, lineEnd, breaks, cursor)
  | steps + 1, wasBlank, done, lineEnd, breaks, cursor =>
    match cursor.rest with
    | [] => some (done, lineEnd, breaks, cursor)
    | c :: cs =>
      if cursor.column ≠ indent then some (done, lineEnd, breaks, cursor)
      else do
        let startsBlank := isBlank c
        let joint :=
          if folded && lineEnd = ['\n'] && !wasBlank && !startsBlank then
            if breaks.isEmpty then [' '] else []
          else lineEnd
        let line := (c :: cs).takeWhile fun c => !isBreak c
        let atEnd := cursor.skip line.length
        let (lineEnd, start) := match atEnd.rest with
          | [] => ([], atEnd)
          | c :: _ => ([c], atEnd.next)
        let (_, more, cursor) ← readBlockBreaks? (some indent) (start.rest.length + 1) 0 [] start
        readBlockLines? folded indent steps startsBlank
          (line.reverse ++ (breaks ++ (joint ++ done))) lineEnd more cursor

/-- The text of a block, last character first, and the place behind it.  `outer` is the least
indentation that a block may have at this place. -/
def readBlock? (folded : Bool) (outer : Nat) (base : Nat) (cursor : Cursor) :
    Option (List Char × Cursor) := do
  let (chomping, increment, cursor) ← readBlockHeader? cursor
  let cursor := cursor.skipWhile isBlank
  let cursor := if cursor.rest.head? = some '#' then cursor.skipLine else cursor
  if !isLineEnd cursor.rest then none
  else do
    let cursor := cursor.next
    let known := increment.map fun increment => base + increment
    let (widest, breaks, cursor) ← readBlockBreaks? known (cursor.rest.length + 1) 0 [] cursor
    let indent := known.getD (max (max widest outer) 1)
    let (done, lineEnd, breaks, cursor) ←
      readBlockLines? folded indent (cursor.rest.length + 1) false [] [] breaks cursor
    let text := match chomping with
      | .strip => done
      | .clip => lineEnd ++ done
      | .keep => breaks ++ (lineEnd ++ done)
    some (text, cursor)

end ApiScribe.Yaml
