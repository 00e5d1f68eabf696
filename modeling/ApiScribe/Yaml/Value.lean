import ApiScribe.Json.Value
import ApiScribe.Number.Numeral
import ApiScribe.Yaml.Tree

/-!
# YAML values

A plain scalar is null, a flag, a number or a text, which its spelling decides; a quoted one is a
text.  The core tags ask for one of these kinds, and a tag of the document's own is kept with the
value that it stands in front of.

Aliases are replaced by what they refer to.  Containers may stand inside one another 128 deep, and
aliases may be followed a hundred times as often as the document has parts; a document that would
need more is refused, and so is one in which a mapping has a key twice.

Converted to JSON, keys that are flags or numbers become their text, and other keys that are no
texts have no counterpart.
-/

namespace ApiScribe.Yaml

/-- A value of a document. -/
inductive Value where
  | null
  | boolean (value : Bool)
  | integer (value : Int)
  | float (value : Binary64)
  | string (value : String)
  | sequence (items : List Value)
  | mapping (entries : List (Value × Value))
  | tagged (tag : String) (value : Value)
deriving Repr, Inhabited

namespace Value

mutual

/-- Are the values equal?  The order of entries does not matter. -/
def same : Value → Value → Bool
  | .null, .null => true
  | .boolean x, .boolean y => x == y
  | .integer x, .integer y => x == y
  | .float x, .float y => x.sameNumber y || (x == .notANumber && y == .notANumber)
  | .string x, .string y => x == y
  | .sequence xs, .sequence ys => sameItems xs ys
  | .mapping xs, .mapping ys => xs.length == ys.length && haveEntries xs ys
  | .tagged s x, .tagged t y => s == t && same x y
  | _, _ => false

/-- Are the values equal, position by position? -/
def sameItems : List Value → List Value → Bool
  | [], [] => true
  | x :: xs, y :: ys => same x y && sameItems xs ys
  | _, _ => false

/-- Are the entries all among the others? -/
def haveEntries : List (Value × Value) → List (Value × Value) → Bool
  | [], _ => true
  | (key, value) :: rest, others =>
    (others.any fun other => same key other.1 && same value other.2) && haveEntries rest others

end

/-- The words for null. -/
def isNullWord (text : String) : Bool :=
  ["null", "Null", "NULL", "~"].contains text

/-- The flag that a text spells. -/
def flag? (text : String) : Option Bool :=
  if ["true", "True", "TRUE"].contains text then some true
  else if ["false", "False", "FALSE"].contains text then some false
  else none

/-- Is the text a row of digits with a superfluous zero in front? -/
def hasLeadingZero (cs : List Char) : Bool :=
  match (Numeral.sign cs).2 with
  | '0' :: c :: rest => (c :: rest).all Text.isAsciiDigit
  | _ => false

/-- The number behind a base mark. -/
def marked? : List Char → Option Nat
  | '0' :: 'x' :: cs => Numeral.digits? 16 cs
  | '0' :: 'o' :: cs => Numeral.digits? 8 cs
  | '0' :: 'b' :: cs => Numeral.digits? 2 cs
  | _ => none

/-- The magnitude that digits spell, in the base that they are marked with or in base ten. -/
def magnitude? (whole cs : List Char) : Option Nat :=
  match marked? cs with
  | some n => some n
  | none => if hasLeadingZero whole then none else Numeral.digits? 10 cs

/-- The integer that a text spells. -/
def integer? (cs : List Char) : Option Int :=
  match cs with
  | '-' :: rest => (magnitude? cs rest).map fun n => -(n : Int)
  | '+' :: rest => (magnitude? cs rest).map Int.ofNat
  | _ => (magnitude? cs cs).map Int.ofNat

/-- The number of double precision that a text spells. -/
def float? (cs : List Char) : Option Binary64 :=
  let unsigned? := match cs with
    | '+' :: rest => if rest.head? = some '+' || rest.head? = some '-' then none else some rest
    | _ => some cs
  unsigned?.bind fun unsigned =>
    let word := String.ofList unsigned
    if [".inf", ".Inf", ".INF"].contains word then some (.infinite false)
    else if ["-.inf", "-.Inf", "-.INF"].contains (String.ofList cs) then some (.infinite true)
    else if [".nan", ".NaN", ".NAN"].contains (String.ofList cs) then some .notANumber
    else (Numeral.binary64? unsigned).filter Binary64.isFinite

/-- The integers that have a value. -/
def inRange (n : Int) : Bool :=
  -(Int.pow 2 63) ≤ n && n < Int.pow 2 64

/-- Integers beyond these are read in double precision. -/
def inWideRange (n : Int) : Bool :=
  -(Int.pow 2 127) ≤ n && n < Int.pow 2 128

/-- The value of a text that is no integer. -/
def ofNonInteger (text : String) : Value :=
  if hasLeadingZero text.toList then .string text
  else match float? text.toList with
    | some x => .float x
    | none => .string text

/-- The value of a plain scalar.  Integers that are too wide for 64 bits but not for 128 have
none. -/
def ofPlain? (text : String) : Option Value :=
  if text.isEmpty || isNullWord text then some .null
  else match flag? text with
    | some value => some (.boolean value)
    | none =>
      match integer? text.toList with
      | some n =>
        if inRange n then some (.integer n)
        else if inWideRange n then none
        else some (ofNonInteger text)
      | none => some (ofNonInteger text)

/-- The value of a scalar without a tag. -/
def ofUntagged? (plain : Bool) (text : String) : Option Value :=
  if plain then ofPlain? text else some (.string text)

/-- The name of a tag of the document's own. -/
def ownTag? (tag : String) : Option String :=
  match tag.toList with
  | '!' :: name => some (String.ofList name)
  | _ => none

/-- The value of a scalar with a tag that is not the document's own. -/
def ofCoreTag? (tag text : String) : Option Value :=
  match tag with
  | "tag:yaml.org,2002:null" => if isNullWord text then some .null else none
  | "tag:yaml.org,2002:bool" => (flag? text).map .boolean
  | "tag:yaml.org,2002:int" =>
    ((integer? text.toList).filter inRange).map .integer
  | "tag:yaml.org,2002:float" => (float? text.toList).map .float
  | _ => some (.string text)

/-- The value with its tag, if the tag is the document's own; such a tag has a name. -/
def withTag? (tag : Option String) (value : Value) : Option Value :=
  match tag.bind ownTag? with
  | some name => if name.isEmpty then none else some (.tagged name value)
  | none => some value

/-- The value of a scalar. -/
def ofScalar? (tag : Option String) (plain : Bool) (text : String) : Option Value :=
  match tag with
  | none => ofUntagged? plain text
  | some tag =>
    if (ownTag? tag).isSome then (ofUntagged? plain text).bind (withTag? (some tag))
    else ofCoreTag? tag text

/-- Build values one after the other; the number counts the aliases that were followed. -/
def buildItems? (build : Tree → Nat → Option (Value × Nat)) :
    List Tree → Nat → Option (List Value × Nat)
  | [], followed => some ([], followed)
  | tree :: rest, followed => do
    let (value, followed) ← build tree followed
    let (others, followed) ← buildItems? build rest followed
    pure (value :: others, followed)

/-- Build entries one after the other, no key of which may be among `done` or come twice. -/
def buildEntries? (build : Tree → Nat → Option (Value × Nat)) (done : List Value) :
    List (Tree × Tree) → Nat → Option (List (Value × Value) × Nat)
  | [], followed => some ([], followed)
  | (key, value) :: rest, followed => do
    let (key, followed) ← build key followed
    if done.any fun other => other.same key then none
    else do
      let (value, followed) ← build value followed
      let (others, followed) ← buildEntries? build (key :: done) rest followed
      pure ((key, value) :: others, followed)

/-- The tree that stands at a place, an alias being followed. -/
def follow? (anchors : List (Nat × Tree)) (limit : Nat) (tree : Tree) (followed : Nat) :
    Option (Tree × Nat) :=
  match tree with
  | .alias number =>
    if limit ≤ followed then none
    else (Tree.target? anchors number).map fun tree => (tree, followed + 1)
  | tree => some (tree, followed)

/-- The value of a tree, with room for `depth` containers inside one another. -/
def build? (anchors : List (Nat × Tree)) (limit : Nat) :
    (depth : Nat) → Tree → Nat → Option (Value × Nat)
  | 0, tree, followed => do
    match ← follow? anchors limit tree followed with
    | (.scalar _ tag plain text, followed) => do
      pure (← ofScalar? tag plain text, followed)
    | _ => none
  | depth + 1, tree, followed => do
    match ← follow? anchors limit tree followed with
    | (.scalar _ tag plain text, followed) => do
      pure (← ofScalar? tag plain text, followed)
    | (.sequence _ tag items, followed) => do
      let (items, followed) ← buildItems? (build? anchors limit depth) items followed
      pure (← withTag? tag (.sequence items), followed)
    | (.mapping _ tag entries, followed) => do
      let (entries, followed) ← buildEntries? (build? anchors limit depth) [] entries followed
      pure (← withTag? tag (.mapping entries), followed)
    | (.alias _, _) => none

/-- The containers that may stand inside one another. -/
def depthLimit : Nat := 128

/-- The value of a document. -/
def ofTree? (tree : Tree) : Option Value :=
  (build? tree.anchored (100 * tree.eventCount) depthLimit tree 0).map Prod.fst

/-- The value that a text spells; an empty text is null. -/
def ofText? (text : String) : Option Value := do
  match ← Tree.ofText? text with
  | some tree => ofTree? tree
  | none => pure .null

/-- The name that a key becomes. -/
def keyName? : Value → Option String
  | .boolean value => some (if value then "true" else "false")
  | .integer value => some (toString value)
  | .float value => if value.isFinite then some value.keyText else none
  | .string value => some value
  | _ => none

mutual

/-- The value as JSON, if its keys have names.  Of entries whose keys get the same name the last
one counts; what is not a finite number is null. -/
def toJson? : Value → Option Json
  | .null => some .null
  | .boolean value => some (.boolean value)
  | .integer value => some (.number (.integer value))
  | .float value => some (if value.isFinite then .number (.binary value) else .null)
  | .string value => some (.string value)
  | .sequence items => (itemsToJson? items).map .array
  | .mapping entries => (entriesToJson? [] entries).map .object
  | .tagged tag value => (toJson? value).map fun value => .object [("!" ++ tag, value)]

/-- The values as JSON. -/
def itemsToJson? : List Value → Option (List Json)
  | [] => some []
  | value :: rest => do
    let item ← toJson? value
    let others ← itemsToJson? rest
    pure (item :: others)

/-- The entries as members of an object, after those that it has. -/
def entriesToJson? (done : Table Json) : List (Value × Value) → Option (Table Json)
  | [] => some done
  | (key, value) :: rest => do
    let name ← keyName? key
    let value ← toJson? value
    entriesToJson? (Table.put done name value) rest

end

end Value

end ApiScribe.Yaml
