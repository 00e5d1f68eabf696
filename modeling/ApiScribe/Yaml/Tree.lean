import ApiScribe.Table
import ApiScribe.Yaml.Token

/-!
# YAML trees

The document of a text, as a tree of scalars, sequences and mappings with their tags and anchors.
Aliases are leaves here.  An anchor is known by a number, which is how many anchor names there
were when it was set; an alias refers to the number that its name has at that point.

The reader goes through the tokens from left to right.  Each of its functions returns what it read
together with the state behind it, and answers `none` where a token does not fit.  Every call but
those for missing scalars takes a token, so three calls for every token are enough.
-/

namespace ApiScribe.Yaml

/-- A document.  Anchors are numbers, tags are written out. -/
inductive Tree where
  | alias (target : Nat)
  | scalar (anchor : Option Nat) (tag : Option String) (plain : Bool) (text : String)
  | sequence (anchor : Option Nat) (tag : Option String) (items : List Tree)
  | mapping (anchor : Option Nat) (tag : Option String) (entries : List (Tree × Tree))
deriving Repr, Inhabited

namespace Tree

/-- What is left to read, the numbers of the anchor names, and the meaning of tag handles. -/
structure Reading where
  tokens : List Token
  anchors : Table Nat := []
  handles : Table String := []
deriving Inhabited

/-- The next token. -/
def Reading.next (r : Reading) : Token :=
  r.tokens.head?.getD .textEnd

/-- The state behind the next token. -/
def Reading.skip (r : Reading) : Reading :=
  { r with tokens := r.tokens.tail }

/-- The anchor and the tag of a node as they are written. -/
structure Properties where
  anchor : Option String := none
  tag : Option (String × String) := none

/-- An anchor and a tag, in either order, if they are there. -/
def properties (r : Reading) : Properties × Reading :=
  match r.tokens with
  | .anchor name :: .tag handle suffix :: rest =>
    ({ anchor := some name, tag := some (handle, suffix) }, { r with tokens := rest })
  | .tag handle suffix :: .anchor name :: rest =>
    ({ anchor := some name, tag := some (handle, suffix) }, { r with tokens := rest })
  | .anchor name :: rest => ({ anchor := some name }, { r with tokens := rest })
  | .tag handle suffix :: rest => ({ tag := some (handle, suffix) }, { r with tokens := rest })
  | _ => ({}, r)

/-- The tag written out; its handle must be known. -/
def fullTag? (handles : Table String) : Option (String × String) → Option (Option String)
  | none => some none
  | some (handle, suffix) =>
    if handle.isEmpty then some (some suffix)
    else (handles.get? handle).map fun start => some (start ++ suffix)

/-- Give an anchor name its number. -/
def Reading.define (r : Reading) : Option String → Option Nat × Reading
  | none => (none, r)
  | some name => (some r.anchors.length, { r with anchors := r.anchors.put name r.anchors.length })

/-- A scalar that is missing. -/
def missing : Tree :=
  .scalar none none true ""

/-- Does the token end the current item of a block? -/
def endsBlockItem : Token → Bool
  | .blockEntry => true
  | .blockEnd => true
  | _ => false

/-- Does the token end the current key or value of a block? -/
def endsBlockPart : Token → Bool
  | .key => true
  | .value => true
  | .blockEnd => true
  | _ => false

mutual

/-- A node.  `block` says whether blocks may stand here, and `indentless` whether items may stand at
the indentation of the mapping around them. -/
def node? : (steps : Nat) → (block indentless : Bool) → Reading → Option (Tree × Reading)
  | 0, _, _, _ => none
  | steps + 1, block, indentless, r =>
    match r.next with
    | .alias name => (r.anchors.get? name).map fun target => (.alias target, r.skip)
    | _ => do
      let (written, r) := properties r
      let tag ← fullTag? r.handles written.tag
      let (anchor, inner) := r.define written.anchor
      match r.next with
      | .blockEntry =>
        if indentless then do
          let (items, r) ← indentlessItems? steps inner []
          pure (.sequence anchor tag items, r)
        else if anchor.isSome || tag.isSome then pure (.scalar anchor tag true "", inner)
        else none
      | .scalar plain text =>
        let tag := if tag = some "!" then none else tag
        pure (.scalar anchor tag plain text, inner.skip)
      | .flowSequenceStart => do
        let (items, r) ← flowItems? steps true inner.skip []
        pure (.sequence anchor tag items, r)
      | .flowMappingStart => do
        let (entries, r) ← flowEntries? steps true inner.skip []
        pure (.mapping anchor tag entries, r)
      | .blockSequenceStart =>
        if block then do
          let (items, r) ← blockItems? steps inner.skip []
          pure (.sequence anchor tag items, r)
        else if anchor.isSome || tag.isSome then pure (.scalar anchor tag true "", inner)
        else none
      | .blockMappingStart =>
        if block then do
          let (entries, r) ← blockEntries? steps inner.skip []
          pure (.mapping anchor tag entries, r)
        else if anchor.isSome || tag.isSome then pure (.scalar anchor tag true "", inner)
        else none
      | _ =>
        if anchor.isSome || tag.isSome then pure (.scalar anchor tag true "", inner) else none

/-- The rest of a block of items. -/
def blockItems? : (steps : Nat) → Reading → List Tree → Option (List Tree × Reading)
  | 0, _, _ => none
  | steps + 1, r, done =>
    match r.next with
    | .blockEntry =>
      let r := r.skip
      if endsBlockItem r.next then blockItems? steps r (missing :: done)
      else do
        let (item, r) ← node? steps true false r
        blockItems? steps r (item :: done)
    | .blockEnd => some (done.reverse, r.skip)
    | _ => none

/-- The rest of items at the indentation of the mapping around them. -/
def indentlessItems? : (steps : Nat) → Reading → List Tree → Option (List Tree × Reading)
  | 0, _, _ => none
  | steps + 1, r, done =>
    match r.next with
    | .blockEntry =>
      let r := r.skip
      if endsBlockItem r.next || endsBlockPart r.next then
        indentlessItems? steps r (missing :: done)
      else do
        let (item, r) ← node? steps true false r
        indentlessItems? steps r (item :: done)
    | _ => some (done.reverse, r)

/-- The rest of a block of entries. -/
def blockEntries? :
    (steps : Nat) → Reading → List (Tree × Tree) → Option (List (Tree × Tree) × Reading)
  | 0, _, _ => none
  | steps + 1, r, done =>
    match r.next with
    | .key => do
      let r := r.skip
      let (key, r) ← if endsBlockPart r.next then some (missing, r) else node? steps true true r
      let (value, r) ← blockValue? steps r
      blockEntries? steps r ((key, value) :: done)
    | .blockEnd => some (done.reverse, r.skip)
    | _ => none

/-- The value of an entry of a block. -/
def blockValue? : (steps : Nat) → Reading → Option (Tree × Reading)
  | 0, _ => none
  | steps + 1, r =>
    match r.next with
    | .value =>
      let r := r.skip
      if endsBlockPart r.next then some (missing, r) else node? steps true true r
    | _ => some (missing, r)

/-- The rest of a sequence in brackets. -/
def flowItems? :
    (steps : Nat) → (first : Bool) → Reading → List Tree → Option (List Tree × Reading)
  | 0, _, _, _ => none
  | steps + 1, first, r, done =>
    match r.next with
    | .flowSequenceEnd => some (done.reverse, r.skip)
    | token => do
      let r ← if first then some r else if token = .flowEntry then some r.skip else none
      match r.next with
      | .flowSequenceEnd => some (done.reverse, r.skip)
      | .key => do
        let r := r.skip
        let (key, r) ← match r.next with
          | .value => some (missing, r.skip)
          | .flowEntry => some (missing, r.skip)
          | .flowSequenceEnd => some (missing, r.skip)
          | _ => node? steps false false r
        let (value, r) ← flowValue? steps r
        flowItems? steps false r (.mapping none none [(key, value)] :: done)
      | _ => do
        let (item, r) ← node? steps false false r
        flowItems? steps false r (item :: done)

/-- The value of an entry in brackets. -/
def flowValue? : (steps : Nat) → Reading → Option (Tree × Reading)
  | 0, _ => none
  | steps + 1, r =>
    match r.next with
    | .value =>
      let r := r.skip
      match r.next with
      | .flowEntry => some (missing, r)
      | .flowSequenceEnd => some (missing, r)
      | .flowMappingEnd => some (missing, r)
      | _ => node? steps false false r
    | _ => some (missing, r)

/-- The rest of a mapping in braces. -/
def flowEntries? :
    (steps : Nat) → (first : Bool) → Reading → List (Tree × Tree) →
      Option (List (Tree × Tree) × Reading)
  | 0, _, _, _ => none
  | steps + 1, first, r, done =>
    match r.next with
    | .flowMappingEnd => some (done.reverse, r.skip)
    | token => do
      let r ← if first then some r else if token = .flowEntry then some r.skip else none
      match r.next with
      | .flowMappingEnd => some (done.reverse, r.skip)
      | .key => do
        let r := r.skip
        let (key, r) ← match r.next with
          | .value => some (missing, r)
          | .flowEntry => some (missing, r)
          | .flowMappingEnd => some (missing, r)
          | _ => node? steps false false r
        let (value, r) ← flowValue? steps r
        flowEntries? steps false r ((key, value) :: done)
      | _ => do
        let (key, r) ← node? steps false false r
        flowEntries? steps false r ((key, missing) :: done)

end

/-- The directives in front of a document: at most one version, which must be 1.1 or 1.2, and tag
handles, none of them twice.  The result says whether there were any. -/
def directives? (versionSeen : Bool) (handles : Table String) :
    List Token → Option (Bool × Table String × List Token)
  | .versionDirective major minor :: rest =>
    if versionSeen || major ≠ 1 || (minor ≠ 1 && minor ≠ 2) then none
    else (directives? true handles rest).map fun (_, handles, rest) => (true, handles, rest)
  | .tagDirective handle start :: rest =>
    if (handles.get? handle).isSome then none
    else
      (directives? versionSeen (handles ++ [(handle, start)]) rest).map fun (_, handles, rest) =>
        (true, handles, rest)
  | tokens => some (false, handles, tokens)

/-- Does the token stand between documents? -/
def isBetween : Token → Bool
  | .versionDirective _ _ => true
  | .tagDirective _ _ => true
  | .documentStart => true
  | .documentEnd => true
  | .textEnd => true
  | _ => false

/-- The handles that need no directive, unless a directive defines them. -/
def defaultHandles : Table String :=
  [("!", "!"), ("!!", "tag:yaml.org,2002:")]

/-- The content of a document whose beginning has been read. -/
def content? (tokens : List Token) (handles : Table String) : Option (Tree × Reading) :=
  let handles := handles ++ defaultHandles
  let r : Reading := { tokens, handles }
  if isBetween r.next then some (missing, r) else node? (3 * tokens.length + 10) true false r

/-- Behind a document the text ends, apart from marks that end documents. -/
def endsText : List Token → Bool
  | .documentEnd :: rest => endsText rest
  | [.textEnd] => true
  | _ => false

/-- The document of a text with at most one; a text without any has no tree. -/
def ofTokens? (tokens : List Token) : Option (Option Tree) := do
  match tokens with
  | [.textEnd] => pure none
  | _ => do
    let (any, handles, rest) ← directives? false [] tokens
    let rest ← match rest with
      | .documentStart :: rest => some rest
      | _ => if any || rest.head?.any isBetween then none else some rest
    let (tree, r) ← content? rest handles
    if endsText r.tokens then pure (some tree) else none

/-- The document of a text, if the text is well formed and has at most one. -/
def ofText? (text : String) : Option (Option Tree) := do
  ofTokens? (← Token.ofText? text)

/-- The number of parse events of a tree: one for a leaf, and one each for the beginning and the end
of a container. -/
def eventCount : Tree → Nat
  | .alias _ => 1
  | .scalar .. => 1
  | .sequence _ _ items => 2 + listCount items
  | .mapping _ _ entries => 2 + entryCount entries
where
  /-- The number of events of trees. -/
  listCount : List Tree → Nat
    | [] => 0
    | tree :: rest => tree.eventCount + listCount rest
  /-- The number of events of entries. -/
  entryCount : List (Tree × Tree) → Nat
    | [] => 0
    | (key, value) :: rest => key.eventCount + value.eventCount + entryCount rest

/-- The anchor of a tree with the tree. -/
def labelled (tree : Tree) : Option Nat → List (Nat × Tree)
  | some anchor => [(anchor, tree)]
  | none => []

/-- The trees with anchors, in the order of the text. -/
def anchored : Tree → List (Nat × Tree)
  | .alias _ => []
  | .scalar anchor tag plain text => labelled (.scalar anchor tag plain text) anchor
  | .sequence anchor tag items =>
    labelled (.sequence anchor tag items) anchor ++ anchoredItems items
  | .mapping anchor tag entries =>
    labelled (.mapping anchor tag entries) anchor ++ anchoredEntries entries
where
  /-- The trees with anchors among items. -/
  anchoredItems : List Tree → List (Nat × Tree)
    | [] => []
    | tree :: rest => tree.anchored ++ anchoredItems rest
  /-- The trees with anchors among entries. -/
  anchoredEntries : List (Tree × Tree) → List (Nat × Tree)
    | [] => []
    | (key, value) :: rest => key.anchored ++ value.anchored ++ anchoredEntries rest

/-- The tree that an alias stands for: the last one with its number. -/
def target? (anchors : List (Nat × Tree)) (number : Nat) : Option Tree :=
  (anchors.reverse.find? fun entry => entry.1 = number).map Prod.snd

end Tree

end ApiScribe.Yaml
