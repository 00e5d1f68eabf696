import ApiScribe.Proofs.DeclarationTokens
import ApiScribe.Proofs.ShortestDecimals
import ApiScribe.Schema.Basic
import ApiScribe.Shape.Type

/-!
# What a declared enumeration stands for

An enumeration is declared in three ways, and in each of them the values are found in another place of the
text.  `Enumeration.read?` reads the tokens of a declaration as the language does: an object is a table, in
which the last value under a key counts; the type of its values, of which there is no other notation, has
the values of the table; a union has those of its alternatives; and a native enumeration is a table again.

A literal is read as the value that it was written for (`Scalar.ofLexemes?_literal`).  For a number this
says that its text reads back.
-/

namespace ApiScribe

namespace TypeScript

/-! ## Values -/

/-- A value without parts. -/
inductive Scalar where
  | string (text : String)
  | number (value : Binary64)
  | boolean (flag : Bool)
  | null
  | undefined
deriving DecidableEq, Repr

end TypeScript

open TypeScript

/-- The number of double precision that is nearest to an integer. -/
def Binary64.ofInteger (n : Int) : Binary64 :=
  if n < 0 then (ofNat n.natAbs).neg else ofNat n.natAbs

/-- The value that an enumeration lists. -/
def EnumValue.scalar : EnumValue → Scalar
  | .string text => .string text
  | .integer n => .number (Binary64.ofInteger n)
  | .float x => .number x
  | .boolean flag => .boolean flag
  | .null => .null

/-- The value that the bottom of nullable types stands for. -/
def NullableType.scalar : NullableType → Scalar
  | .null => .null
  | .undefined => .undefined

/-- The value of an enumeration is no number, or a finite one. -/
def EnumValue.IsProper : EnumValue → Prop
  | .float x => x.IsProper
  | _ => True

namespace TypeScript

/-! ## Reading -/

namespace Lexeme

/-- A word. -/
@[match_pattern] def word (name : String) : Lexeme :=
  .token (.word name)

/-- A mark. -/
@[match_pattern] def mark (mark : Mark) : Lexeme :=
  .token (.mark mark)

/-- The key that a token spells. -/
def key? : Lexeme → Option String
  | .token (.word name) => some name
  | .token (.text value) => some value
  | _ => none

end Lexeme

/-- The value that a literal stands for; a numeral stands for the nearest number. -/
def Scalar.ofLexemes? : List Lexeme → Option Scalar
  | [.token (.text value)] => some (.string value)
  | [.token (.numeral spelling)] => (Numeral.binary64? spelling.toList).map .number
  | [.mark .minus, .token (.numeral spelling)] =>
    (Numeral.binary64? spelling.toList).map fun x => .number x.neg
  | [.word "true"] => some (.boolean true)
  | [.word "false"] => some (.boolean false)
  | [.word "null"] => some .null
  | [.word "undefined"] => some .undefined
  | _ => none

namespace Enumeration

/-- A key, a separator and a value. -/
def keyed? (separator : Lexeme) : List Lexeme → Option (String × Scalar)
  | key :: mark :: value =>
    if mark = separator then do
      let key ← key.key?
      let value ← Scalar.ofLexemes? value
      pure (key, value)
    else none
  | _ => none

/-- Entries, each with a comma behind it.  A key that is there already is given its new value. -/
def table? (separator : Lexeme) (body : List Lexeme) : Option (Table Scalar) :=
  let pieces := body.splitOn (.mark .comma)
  if pieces.getLast? = some [] then
    (pieces.dropLast.mapM (keyed? separator)).map fun entries =>
      entries.foldl (fun table entry => table.put entry.1 entry.2) []
  else none

/-- The values of an alternative: those of an object that was declared, none at all, or one. -/
def alternative? (object : Option (String × Table Scalar)) : List Lexeme → Option (List Scalar)
  | [.mark .openParen, .word "typeof", .word first, .mark .closeParen, .mark .openBracket,
      .word "keyof", .word "typeof", .word second, .mark .closeBracket] =>
    object.bind fun (name, table) =>
      if first = name ∧ second = name then some (table.map Prod.snd) else none
  | [.word "never"] => some []
  | lexemes => (Scalar.ofLexemes? lexemes).map fun value => [value]

/-- The values of a union, with a semicolon behind it. -/
def union? (object : Option (String × Table Scalar)) (type : List Lexeme) : Option (List Scalar) :=
  if type.getLast? = some (.mark .semicolon) then
    ((type.dropLast.splitOn (.mark .bar)).mapM (alternative? object)).map List.flatten
  else none

/-- The name that a declaration gives to values, and the values. -/
def ofLexemes? : List Lexeme → Option (String × List Scalar)
  | .word "export" :: .word "const" :: .word name :: .equals :: .mark .openBrace :: rest =>
    match rest.span fun lexeme => lexeme ≠ .mark .closeBrace with
    | (body, .mark .closeBrace :: .word "as" :: .word "const" :: .mark .semicolon ::
        .word "export" :: .word "type" :: .word other :: .equals :: type) =>
      if other = name then do
        let table ← table? (.mark .colon) body
        let values ← union? (some (name, table)) type
        pure (name, values)
      else none
    | _ => none
  | .word "export" :: .word "type" :: .word name :: .equals :: type =>
    (union? none type).map fun values => (name, values)
  | .word "export" :: .word "enum" :: .word name :: .mark .openBrace :: rest =>
    if rest.getLast? = some (.mark .closeBrace) then
      (table? .equals rest.dropLast).map fun table => (name, table.map Prod.snd)
    else none
  | _ => none

/-- What the text of a declaration stands for. -/
def read? (alphabet : IdentifierAlphabet) (text : String) : Option (String × List Scalar) :=
  (Lexeme.ofText? alphabet text).bind ofLexemes?

end Enumeration

/-! ## Literals -/

namespace Scalar

/-- A numeral is read as a number, a minus sign in front of it as the sign. -/
theorem ofLexemes?_numeralTokens {body : List Char} (hbody : IsNumeral body) {x : Binary64}
    (hread : Numeral.binary64? body = some x) (negative : Bool) :
    ofLexemes? ((numeralTokens (Numeral.signed negative body)).map .token) =
      some (.number (if negative then x.neg else x)) := by
  cases negative with
  | false =>
    have htokens : numeralTokens (Numeral.signed false body) = [.numeral (String.ofList body)] :=
      hbody.numeralTokens_eq
    rw [htokens]
    change (Numeral.binary64? (String.ofList body).toList).map number = _
    rw [String.toList_ofList, hread]
    rfl
  | true =>
    change (Numeral.binary64? (String.ofList body).toList).map (fun x => number x.neg) = _
    rw [String.toList_ofList, hread]
    rfl

/-- An integer is written with its digits, and a minus sign if it is negative. -/
theorem toList_toString_int (n : Int) :
    (toString n).toList = Numeral.signed (n < 0) (Nat.toDigits 10 n.natAbs) := by
  rw [Int.toString_eq_repr, Int.repr_eq_if]
  by_cases hneg : n < 0
  · have hnat : (-n).toNat = n.natAbs := by omega
    rw [if_neg (not_le_of_gt hneg), decide_eq_true hneg, hnat, Nat.repr_eq_ofList_toDigits,
      String.toList_append, String.toList_ofList, String.toList_ofList]
    rfl
  · have hnat : n.toNat = n.natAbs := by omega
    rw [if_pos (le_of_not_gt hneg), decide_eq_false hneg, hnat, Nat.repr_eq_ofList_toDigits,
      String.toList_ofList]
    rfl

/-- **A literal stands for the value** that it is written for. -/
theorem ofLexemes?_literal {value : EnumValue} (h : value.IsProper) :
    ofLexemes? (value.literal.tokens.map .token) = some value.scalar := by
  cases value with
  | string text => rfl
  | integer n =>
    have hwhole := IsNumeral.whole (isWhole_toDigits n.natAbs)
    have hread := ofLexemes?_numeralTokens hwhole (Binary64.binary64?_toDigits n.natAbs) (n < 0)
    rw [← toList_toString_int] at hread
    simp only [decide_eq_true_iff] at hread
    exact hread
  | float x =>
    cases x with
    | finite negative significand exponent =>
      have hnumeral := isNumeral_positional (Decimal.shortest significand exponent)
      have hread := ofLexemes?_numeralTokens hnumeral (Binary64.binary64?_shortest false h) negative
      have htext : (Binary64.finite negative significand exponent).text.toList =
          Numeral.signed negative (Decimal.shortest significand exponent).positional := by
        rw [Binary64.text, String.toList_ofList]
        rfl
      change ofLexemes? ((numeralTokens (Binary64.finite negative significand exponent).text.toList).map
        .token) = _
      rw [htext, hread]
      cases negative <;> rfl
    | infinite => cases h
    | notANumber => cases h
  | boolean flag => cases flag <;> rfl
  | null => rfl

end Scalar

/-! ## Lists of tokens -/

/-- Pieces with a separator behind each of them are split into the pieces, and nothing behind the last. -/
theorem splitOn_flatMap_append {α : Type} [DecidableEq α] {separator : α} {pieces : List (List α)}
    (h : ∀ piece ∈ pieces, separator ∉ piece) :
    (pieces.flatMap fun piece => piece ++ [separator]).splitOn separator = pieces ++ [[]] := by
  induction pieces with
  | nil => rfl
  | cons piece pieces ih =>
    obtain ⟨hpiece, hpieces⟩ := List.forall_mem_cons.mp h
    rw [List.flatMap_cons, List.append_assoc, List.singleton_append,
      List.splitOn_append_cons_self_of_not_mem hpiece, ih hpieces, List.cons_append]

theorem splitOn_separated {mark : Mark} {lists : List (List Token)} (hne : lists ≠ [])
    (h : ∀ tokens ∈ lists, Token.mark mark ∉ tokens) :
    ((separated mark lists).map Lexeme.token).splitOn (.mark mark) =
      lists.map (List.map Lexeme.token) := by
  have hmark : ∀ {tokens : List Token}, Token.mark mark ∉ tokens →
      Lexeme.mark mark ∉ tokens.map Lexeme.token := by
    intro tokens htokens hmem
    obtain ⟨token, htoken, heq⟩ := List.mem_map.mp hmem
    cases heq
    exact htokens htoken
  induction lists with
  | nil => exact absurd rfl hne
  | cons tokens lists ih =>
    obtain ⟨htokens, hlists⟩ := List.forall_mem_cons.mp h
    cases lists with
    | nil =>
      rw [separated, List.splitOn_eq_singleton (hmark htokens)]
      rfl
    | cons second lists =>
      have hrest := ih (List.cons_ne_nil second lists) hlists
      rw [separated, List.map_append, List.map_cons]
      · refine (List.splitOn_append_cons_self_of_not_mem (hmark htokens) _).trans ?_
        rw [hrest]
        rfl
      · intro hnil
        cases hnil

/-- What comes before the first occurrence, and the rest. -/
theorem span_ne {α : Type} [DecidableEq α] {separator : α} {before : List α} (h : separator ∉ before)
    (after : List α) :
    (before ++ separator :: after).span (fun x => x ≠ separator) = (before, separator :: after) := by
  have hbefore : ∀ x ∈ before, decide (x ≠ separator) = true :=
    fun x hx => decide_eq_true fun heq => h (heq ▸ hx)
  rw [List.span_eq_takeWhile_dropWhile, List.takeWhile_append_of_pos hbefore,
    List.dropWhile_append_of_pos hbefore, List.takeWhile_cons_of_neg (by simp),
    List.dropWhile_cons_of_neg (by simp), List.append_nil]

/-- A traversal that succeeds at every item. -/
theorem mapM_of_forall₂ {α β : Type} {f : α → Option β} {items : List α} {results : List β}
    (h : List.Forall₂ (fun item result => f item = some result) items results) :
    items.mapM f = some results := by
  induction h with
  | nil => rfl
  | cons hfirst _ ih =>
    rw [List.mapM_cons, hfirst, ih]
    rfl

/-- A literal has no mark in it but the minus sign. -/
theorem Literal.mark_notMem_tokens {mark : Mark} (h : mark ≠ .minus) (literal : Literal) :
    Token.mark mark ∉ literal.tokens := by
  have hnumeral : ∀ cs, Token.mark mark ∉ numeralTokens cs := by
    intro cs hmem
    rw [numeralTokens.eq_def] at hmem
    split at hmem
    next =>
      rcases List.mem_cons.mp hmem with heq | hmem
      · exact h (Token.mark.inj heq)
      · cases List.mem_singleton.mp hmem
    next => cases List.mem_singleton.mp hmem
  cases literal with
  | string => exact fun hmem => nomatch List.mem_singleton.mp hmem
  | number => exact hnumeral _
  | integer => exact hnumeral _
  | boolean flag => cases flag <;> exact fun hmem => nomatch List.mem_singleton.mp hmem
  | null => exact fun hmem => nomatch List.mem_singleton.mp hmem

namespace Enumeration

/-! ## Entries -/

/-- The tokens of a member with a key. -/
def entryLexemes (separator : Lexeme) (entry : String × EnumValue) : List Lexeme :=
  .token (keyToken entry.1) :: separator :: entry.2.literal.tokens.map .token

theorem key?_keyToken (key : String) : (Lexeme.token (keyToken key)).key? = some key := by
  rw [keyToken]
  split <;> rfl

theorem keyed?_entryLexemes (separator : Lexeme) {entry : String × EnumValue}
    (h : entry.2.IsProper) :
    keyed? separator (entryLexemes separator entry) = some (entry.1, entry.2.scalar) := by
  rw [entryLexemes, keyed?, if_pos rfl, key?_keyToken, Scalar.ofLexemes?_literal h]
  rfl

theorem mark_notMem_entryLexemes {mark : Mark} {separator : Lexeme} (hminus : mark ≠ .minus)
    (hseparator : separator ≠ .mark mark) (entry : String × EnumValue) :
    Lexeme.mark mark ∉ entryLexemes separator entry := by
  intro hmem
  rcases List.mem_cons.mp hmem with heq | hmem
  · have hkey : keyToken entry.1 = .mark mark := (Lexeme.token.inj heq).symm
    rw [keyToken] at hkey
    split at hkey <;> cases hkey
  · rcases List.mem_cons.mp hmem with heq | hmem
    · exact hseparator heq.symm
    · obtain ⟨token, htoken, heq⟩ := List.mem_map.mp hmem
      cases heq
      exact entry.2.literal.mark_notMem_tokens hminus htoken

/-- **The table of an enumeration** has all its entries, if the keys are different. -/
theorem table?_flatMap {separator : Lexeme} (hseparator : separator ≠ .mark .comma)
    {entries : List (String × EnumValue)} (hproper : ∀ entry ∈ entries, entry.2.IsProper)
    (hnodup : (entries.map Prod.fst).Nodup) :
    table? separator (entries.flatMap fun entry => entryLexemes separator entry ++ [.mark .comma]) =
      some (entries.map fun entry => (entry.1, entry.2.scalar)) := by
  have hcomma : ∀ piece ∈ entries.map (entryLexemes separator), Lexeme.mark .comma ∉ piece := by
    intro piece hpiece
    obtain ⟨entry, -, rfl⟩ := List.mem_map.mp hpiece
    exact mark_notMem_entryLexemes (by decide) hseparator entry
  have hsplit := splitOn_flatMap_append hcomma
  rw [List.flatMap_map] at hsplit
  have hread : (entries.map (entryLexemes separator)).mapM (keyed? separator) =
      some (entries.map fun entry => (entry.1, entry.2.scalar)) := by
    rw [List.mapM_map]
    exact mapM_of_forall₂ (List.forall₂_map_right_iff.mpr (List.forall₂_same.mpr fun entry hentry =>
      keyed?_entryLexemes separator (hproper entry hentry)))
  have hnames : (Table.names (entries.map fun entry => (entry.1, entry.2.scalar))).Nodup := by
    rw [Table.names, List.map_map]
    exact hnodup
  have hfold : (entries.map fun entry => (entry.1, entry.2.scalar)).foldl
      (fun table entry => Table.put table entry.1 entry.2) [] =
        [] ++ entries.map fun entry => (entry.1, entry.2.scalar) := Table.foldl_put hnames
  rw [table?, hsplit, List.getLast?_concat, if_pos rfl, List.dropLast_concat, hread, Option.map_some,
    hfold, List.nil_append]

/-! ## Types -/

/-- What is read as a value is read so as an alternative. -/
theorem alternative?_of_ofLexemes? (object : Option (String × Table Scalar)) {lexemes : List Lexeme}
    {value : Scalar} (h : Scalar.ofLexemes? lexemes = some value) :
    alternative? object lexemes = some [value] := by
  rw [alternative?.eq_def]
  split
  next => cases h
  next => cases h
  next => rw [h, Option.map_some]

/-- The tokens of the type of an object's values. -/
def valuesTokens (name : String) : List Token :=
  [.mark .openParen, .word "typeof", .word name, .mark .closeParen, .mark .openBracket,
    .word "keyof", .word "typeof", .word name, .mark .closeBracket]

theorem alternative?_valuesTokens (name : String) (table : Table Scalar) :
    alternative? (some (name, table)) ((valuesTokens name).map .token) =
      some (table.map Prod.snd) := by
  change (if name = name ∧ name = name then some (table.map Prod.snd) else none) = _
  rw [if_pos ⟨rfl, rfl⟩]

/-- A union has the values of its alternatives. -/
theorem union?_separated {object : Option (String × Table Scalar)} {lists : List (List Token)}
    {values : List (List Scalar)} (hne : lists ≠ [])
    (hbar : ∀ tokens ∈ lists, Token.mark .bar ∉ tokens)
    (hvalues : List.Forall₂ (fun tokens values =>
      alternative? object (tokens.map .token) = some values) lists values) :
    union? object ((separated .bar lists ++ [Token.mark .semicolon]).map .token) =
      some values.flatten := by
  have hread : (lists.map (List.map Lexeme.token)).mapM (alternative? object) = some values := by
    rw [List.mapM_map]
    exact mapM_of_forall₂ hvalues
  rw [List.map_append, List.map_singleton, union?, List.getLast?_concat]
  change (if some (Lexeme.mark .semicolon) = some (.mark .semicolon) then _ else _) = _
  rw [if_pos rfl, List.dropLast_concat, splitOn_separated hne hbar, hread, Option.map_some]

end Enumeration

end TypeScript

end ApiScribe
