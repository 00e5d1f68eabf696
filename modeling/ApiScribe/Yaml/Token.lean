import ApiScribe.Yaml.Scalar

/-!
# YAML tokens

The indicators and scalars of a YAML text in order, with the structure that indentation gives made
explicit: a token opens every block of items or entries, and another one closes it.

A key of a mapping is only known to be one when the colon behind it is read.  So the reader
remembers, for every level of brackets, where a key may have started; when the colon comes, the
token that announces the key, and where necessary the one that opens the mapping, are put in front
of what was read since.  Such a key stays on one line and is at most 1024 characters long.
-/

namespace ApiScribe.Yaml

/-- The tokens of a text. -/
inductive Token where
  | versionDirective (major minor : Nat)
  | tagDirective (handle replacement : String)
  | documentStart
  | documentEnd
  | blockSequenceStart
  | blockMappingStart
  | blockEnd
  | flowSequenceStart
  | flowSequenceEnd
  | flowMappingStart
  | flowMappingEnd
  | blockEntry
  | flowEntry
  | key
  | value
  | alias (name : String)
  | anchor (name : String)
  | tag (handle suffix : String)
  | scalar (plain : Bool) (text : String)
  | textEnd
deriving DecidableEq, Repr, Inhabited

/-- A place where a key may have started.  A required key is one that begins a line at the
indentation of its block; the colon behind it must come. -/
structure PossibleKey where
  required : Bool
  number : Nat
  index : Nat
  line : Nat
  column : Nat
deriving Inhabited

/-- What has been read.  The indentation of the blocks that are open is counted from one, and zero
stands for no block; the levels of brackets are counted as well. -/
structure Tokenizer where
  cursor : Cursor
  tokens : Array Token := #[]
  indent : Nat := 0
  outerIndents : List Nat := []
  flowLevel : Nat := 0
  keyAllowed : Bool := true
  key : Option PossibleKey := none
  outerKeys : List (Option PossibleKey) := []
  finished : Bool := false
deriving Inhabited

namespace Tokenizer

/-- Is the place inside brackets? -/
def inFlow (t : Tokenizer) : Bool :=
  0 < t.flowLevel

/-- One more token. -/
def emit (t : Tokenizer) (token : Token) : Tokenizer :=
  { t with tokens := t.tokens.push token }

/-- One more token, in front of the token with the given number. -/
def emitAt (t : Tokenizer) (number : Nat) (token : Token) : Tokenizer :=
  { t with tokens := t.tokens.insertIdxIfInBounds number token }

/-- Close the blocks that are indented by more than `column` columns less one. -/
def closeBlocks (t : Tokenizer) (column : Nat) : Tokenizer :=
  if t.inFlow then t
  else
    let closed := (t.indent :: t.outerIndents).takeWhile fun indent => column < indent
    match (t.indent :: t.outerIndents).drop closed.length with
    | indent :: outer =>
      { t with
        tokens := t.tokens ++ Array.replicate closed.length .blockEnd
        indent
        outerIndents := outer }
    | [] => t

/-- Open a block at a column, in front of the token with the given number, unless one is open
there. -/
def openBlock (t : Tokenizer) (column number : Nat) (token : Token) : Tokenizer :=
  if !t.inFlow && t.indent < column + 1 then
    { t.emitAt number token with
      indent := column + 1
      outerIndents := t.indent :: t.outerIndents }
  else t

/-- Is the key too long or on an earlier line? -/
def isStale (cursor : Cursor) (key : PossibleKey) : Bool :=
  key.line < cursor.line || key.index + 1024 < cursor.index

/-- Forget a key that has become stale; a required one must not. -/
def dropStale? (cursor : Cursor) : Option PossibleKey → Option (Option PossibleKey)
  | none => some none
  | some key =>
    if !isStale cursor key then some (some key) else if key.required then none else some none

/-- Forget all keys that have become stale. -/
def dropStaleKeys? (t : Tokenizer) : Option Tokenizer := do
  let key ← dropStale? t.cursor t.key
  let outerKeys ← t.outerKeys.mapM (dropStale? t.cursor)
  pure { t with key, outerKeys }

/-- Forget the key of this level; a required one must not be forgotten. -/
def dropKey? (t : Tokenizer) : Option Tokenizer :=
  if t.key.any fun key => key.required then none else some { t with key := none }

/-- Remember that a key may start here. -/
def rememberKey? (t : Tokenizer) : Option Tokenizer :=
  if t.keyAllowed then do
    let t ← t.dropKey?
    pure { t with
      key := some {
        required := !t.inFlow && t.indent == t.cursor.column + 1
        number := t.tokens.size
        index := t.cursor.index
        line := t.cursor.line
        column := t.cursor.column } }
  else some t

/-- Skip blanks, comments and line ends up to the next token.  Behind a line end outside brackets a
key may start, and tabs are no blanks there. -/
def skipToToken : (steps : Nat) → Tokenizer → Tokenizer
  | 0, t => t
  | steps + 1, t =>
    let cursor :=
      if t.cursor.column == 0 && t.cursor.rest.head? = some byteOrderMark then t.cursor.next
      else t.cursor
    let cursor := cursor.skipWhile fun c =>
      c = ' ' || ((t.inFlow || !t.keyAllowed) && c = '\t')
    let cursor := if cursor.rest.head? = some '#' then cursor.skipLine else cursor
    match cursor.rest with
    | [] => { t with cursor }
    | c :: _ =>
      if isBreak c then
        skipToToken steps { t with cursor := cursor.next, keyAllowed := t.keyAllowed || !t.inFlow }
      else { t with cursor }

/-- Skip the rest of a line, which may only hold a comment. -/
def finishLine? (cursor : Cursor) : Option Cursor :=
  let cursor := cursor.skipWhile isBlank
  let cursor := if cursor.rest.head? = some '#' then cursor.skipLine else cursor
  if isLineEnd cursor.rest then some cursor.next else none

/-- The characters of addresses in tags; `inside` admits those that only stand in angle
brackets. -/
def isTagChar (inside : Bool) (c : Char) : Bool :=
  isNameChar c || ";/?:@&=+$.%!~*'()".toList.contains c || (inside && ",[]".toList.contains c)

/-- The bytes that percent escapes spell, and what follows them. -/
def escapedBytes : (steps : Nat) → List Char → Option (List UInt8 × List Char)
  | 0, cs => some ([], cs)
  | steps + 1, cs =>
    match cs with
    | '%' :: a :: b :: rest => do
      let n ← Numeral.digits? 16 [a, b]
      let (bytes, rest) ← escapedBytes steps rest
      pure (n.toUInt8 :: bytes, rest)
    | '%' :: _ => none
    | _ => some ([], cs)

/-- The address that the characters of a tag spell. -/
def unescapeTag? : (steps : Nat) → List Char → Option (List Char)
  | 0, _ => some []
  | steps + 1, cs =>
    match cs with
    | [] => some []
    | '%' :: _ => do
      let (bytes, rest) ← escapedBytes cs.length cs
      let text ← String.fromUTF8? ⟨bytes.toArray⟩
      let others ← unescapeTag? steps rest
      pure (text.toList ++ others)
    | c :: rest => (unescapeTag? steps rest).map fun others => c :: others

/-- The handle of a tag and the place behind it: exclamation marks around a name, or one alone. -/
def tagHandle (cursor : Cursor) : List Char × Cursor :=
  let name := cursor.rest.tail.takeWhile isNameChar
  let behind := cursor.skip (name.length + 1)
  if behind.rest.head? = some '!' then ('!' :: name ++ ['!'], behind.skip 1)
  else ('!' :: name, behind)

/-- A tag and the place behind it. -/
def readTag? (inFlow : Bool) (cursor : Cursor) : Option (Token × Cursor) := do
  let (token, cursor) ← match cursor.rest.tail with
    | '<' :: cs => do
      let address := cs.takeWhile (isTagChar true)
      let behind := cursor.skip (address.length + 2)
      if address.isEmpty || behind.rest.head? ≠ some '>' then none
      else do
        let address ← unescapeTag? address.length address
        pure (Token.tag "" (String.ofList address), behind.skip 1)
    | _ => do
      let (handle, behind) := tagHandle cursor
      let suffix := behind.rest.takeWhile (isTagChar false)
      let text ← unescapeTag? suffix.length suffix
      let behind := behind.skip suffix.length
      if 2 ≤ handle.length && handle.getLast? = some '!' then
        if suffix.isEmpty then none
        else pure (Token.tag (String.ofList handle) (String.ofList text), behind)
      else
        let suffix := handle.tail ++ text
        if suffix.isEmpty then pure (Token.tag "" "!", behind)
        else pure (Token.tag "!" (String.ofList suffix), behind)
  if isGapNext cursor.rest || (inFlow && cursor.rest.head? = some ',') then
    some (token, cursor)
  else none

/-- The numbers of a version and the place behind them. -/
def readVersion? (cursor : Cursor) : Option (Token × Cursor) := do
  let major := cursor.rest.takeWhile Text.isAsciiDigit
  let point := cursor.skip major.length
  let minor := point.rest.tail.takeWhile Text.isAsciiDigit
  if point.rest.head? = some '.' && (1 ≤ major.length && major.length ≤ 9)
      && (1 ≤ minor.length && minor.length ≤ 9) then
    some (.versionDirective (Numeral.valueOf major) (Numeral.valueOf minor),
      point.skip (minor.length + 1))
  else none

/-- The handle and the replacement of a tag directive and the place behind them. -/
def readTagDirective? (cursor : Cursor) : Option (Token × Cursor) := do
  if cursor.rest.head? ≠ some '!' then none
  else do
    let (handle, behind) := tagHandle cursor
    if handle.getLast? ≠ some '!' then none
    else if !(behind.rest.head?.any isBlank) then none
    else do
      let start := behind.skipWhile isBlank
      let address := start.rest.takeWhile (isTagChar true)
      let text ← unescapeTag? address.length address
      let behind := start.skip address.length
      if address.isEmpty || !isGapNext behind.rest then none
      else some (.tagDirective (String.ofList handle) (String.ofList text), behind)

/-- A directive and the place behind its line. -/
def readDirective? (cursor : Cursor) : Option (Token × Cursor) := do
  let cursor := cursor.skip 1
  let name := cursor.rest.takeWhile isNameChar
  let behind := cursor.skip name.length
  if !isGapNext behind.rest then none
  else do
    let (token, behind) ←
      if name = "YAML".toList then readVersion? (behind.skipWhile isBlank)
      else if name = "TAG".toList then readTagDirective? (behind.skipWhile isBlank)
      else none
    let behind ← finishLine? behind
    some (token, behind)

/-- The name behind an anchor or alias indicator, and the place behind it. -/
def readName? (cursor : Cursor) : Option (String × Cursor) :=
  let cursor := cursor.skip 1
  let name := cursor.rest.takeWhile isNameChar
  let behind := cursor.skip name.length
  let ends := isGapNext behind.rest || (behind.rest.head?.any fun c =>
    "?:,]%@".toList.contains c || c = '\x7d' || c = '\x60')
  if name.isEmpty || !ends then none else some (String.ofList name, behind)

/-- A token of one character. -/
def take (t : Tokenizer) (token : Token) : Tokenizer :=
  { t.emit token with cursor := t.cursor.skip 1 }

/-- The end of the text. -/
def readEnd? (t : Tokenizer) : Option Tokenizer := do
  let t ← (t.closeBlocks 0).dropKey?
  pure { t.emit .textEnd with finished := true, keyAllowed := false }

/-- A directive. -/
def directive? (t : Tokenizer) : Option Tokenizer := do
  let t ← (t.closeBlocks 0).dropKey?
  let (token, cursor) ← readDirective? t.cursor
  pure { t.emit token with cursor, keyAllowed := false }

/-- A mark between documents. -/
def documentMark? (t : Tokenizer) (token : Token) : Option Tokenizer := do
  let t ← (t.closeBlocks 0).dropKey?
  pure { t.emit token with cursor := t.cursor.skip 3, keyAllowed := false }

/-- A bracket that opens. -/
def openFlow? (t : Tokenizer) (token : Token) : Option Tokenizer := do
  let t ← t.rememberKey?
  pure { t.take token with
    keyAllowed := true, flowLevel := t.flowLevel + 1, key := none,
    outerKeys := t.key :: t.outerKeys }

/-- A bracket that closes. -/
def closeFlow? (t : Tokenizer) (token : Token) : Option Tokenizer := do
  let t ← t.dropKey?
  let t := match t.outerKeys with
    | key :: outerKeys => { t with key, outerKeys, flowLevel := t.flowLevel - 1 }
    | [] => t
  pure { t.take token with keyAllowed := false }

/-- A comma between items. -/
def flowEntry? (t : Tokenizer) : Option Tokenizer := do
  let t ← t.dropKey?
  pure { t.take .flowEntry with keyAllowed := true }

/-- A hyphen in front of an item. -/
def blockEntry? (t : Tokenizer) : Option Tokenizer := do
  if !t.inFlow && !t.keyAllowed then none
  else do
    let t ← (t.openBlock t.cursor.column t.tokens.size .blockSequenceStart).dropKey?
    pure { t.take .blockEntry with keyAllowed := true }

/-- A question mark in front of a key. -/
def explicitKey? (t : Tokenizer) : Option Tokenizer := do
  if !t.inFlow && !t.keyAllowed then none
  else do
    let t ← (t.openBlock t.cursor.column t.tokens.size .blockMappingStart).dropKey?
    pure { t.take .key with keyAllowed := !t.inFlow }

/-- A colon in front of a value. -/
def value? (t : Tokenizer) : Option Tokenizer :=
  match t.key with
  | some key =>
    let t := (t.emitAt key.number .key).openBlock key.column key.number .blockMappingStart
    some { t.take .value with key := none, keyAllowed := false }
  | none =>
    if !t.inFlow && !t.keyAllowed then none
    else
      let t := t.openBlock t.cursor.column t.tokens.size .blockMappingStart
      some { t.take .value with keyAllowed := !t.inFlow }

/-- An anchor or an alias. -/
def name? (t : Tokenizer) (token : String → Token) : Option Tokenizer := do
  let t ← t.rememberKey?
  let (name, cursor) ← readName? t.cursor
  pure { t.emit (token name) with cursor, keyAllowed := false }

/-- A tag. -/
def tag? (t : Tokenizer) : Option Tokenizer := do
  let t ← t.rememberKey?
  let (token, cursor) ← readTag? t.inFlow t.cursor
  pure { t.emit token with cursor, keyAllowed := false }

/-- A block scalar. -/
def block? (t : Tokenizer) (folded : Bool) : Option Tokenizer := do
  let t ← t.dropKey?
  let (text, cursor) ← readBlock? folded t.indent (t.indent - 1) (t.cursor.skip 1)
  pure { t.emit (.scalar false (String.ofList text.reverse)) with cursor, keyAllowed := true }

/-- A quoted scalar. -/
def quoted? (t : Tokenizer) (quote : Char) : Option Tokenizer := do
  let t ← t.rememberKey?
  let start := t.cursor.skip 1
  let (text, cursor) ← readQuoted? quote (start.rest.length + 1) [] start
  pure { t.emit (.scalar false (String.ofList text.reverse)) with cursor, keyAllowed := false }

/-- A plain scalar. -/
def plain? (t : Tokenizer) : Option Tokenizer := do
  let t ← t.rememberKey?
  let (text, crossed, cursor) ←
    readPlain? t.inFlow t.indent (t.cursor.rest.length + 1) [] {} t.cursor
  pure { t.emit (.scalar true (String.ofList text.reverse)) with cursor, keyAllowed := crossed }

/-- May a plain scalar begin with the text? -/
def startsPlain (inFlow : Bool) : List Char → Bool
  | [] => false
  | c :: cs =>
    !(isBlank c || isBreak c || "-?:,[]#&*!|>%@".toList.contains c
        || c = '\x7b' || c = '\x7d' || c = '\x27' || c = '\x22' || c = '\x60')
      || (c = '-' && !cs.head?.any isBlank)
      || (!inFlow && (c = '?' || c = ':') && !isGapNext cs)

/-- Read the next token. -/
def step? (t : Tokenizer) : Option Tokenizer := do
  let t ← (skipToToken (t.cursor.rest.length + 1) t).dropStaleKeys?
  let t := t.closeBlocks (t.cursor.column + 1)
  match t.cursor.rest with
  | [] => t.readEnd?
  | c :: cs =>
    if t.cursor.column == 0 && c = '%' then t.directive?
    else if t.cursor.atMark '-' then t.documentMark? .documentStart
    else if t.cursor.atMark '.' then t.documentMark? .documentEnd
    else if c = '[' then t.openFlow? .flowSequenceStart
    else if c = '\x7b' then t.openFlow? .flowMappingStart
    else if c = ']' then t.closeFlow? .flowSequenceEnd
    else if c = '\x7d' then t.closeFlow? .flowMappingEnd
    else if c = ',' then t.flowEntry?
    else if isIndicator '-' (c :: cs) then t.blockEntry?
    else if c = '?' && (t.inFlow || isGapNext cs) then t.explicitKey?
    else if c = ':' && (t.inFlow || isGapNext cs) then t.value?
    else if c = '*' then t.name? .alias
    else if c = '&' then t.name? .anchor
    else if c = '!' then t.tag?
    else if c = '|' && !t.inFlow then t.block? false
    else if c = '>' && !t.inFlow then t.block? true
    else if c = '\x27' || c = '\x22' then t.quoted? c
    else if startsPlain t.inFlow (c :: cs) then t.plain?
    else none

/-- Read tokens up to the end of the text. -/
def run? : (steps : Nat) → Tokenizer → Option Tokenizer
  | 0, _ => none
  | steps + 1, t =>
    if t.finished then some t
    else match t.step? with
      | some t => run? steps t
      | none => none

end Tokenizer

/-- The tokens of a text, if it is well formed. -/
def Token.ofText? (text : String) : Option (List Token) := do
  let cs := text.toList
  if !cs.all isAllowed then none
  else do
    let cs := normalizeBreaks cs
    let cs := if cs.head? = some byteOrderMark then cs.tail else cs
    let t ← Tokenizer.run? (cs.length + 2) { cursor := { rest := cs } }
    pure t.tokens.toList

end ApiScribe.Yaml
