import ApiScribe.Proofs.Identifiers
import ApiScribe.Proofs.WrittenNames

/-!
# Tokens

A text is read in two steps, of which this is the first: characters become tokens, words, numerals,
quoted texts and marks.  The scanner (`ScanState.step`) goes through the text once.  A word or a
numeral is as long as it can be, so where it ends depends on the character behind it, and on nothing
else.

`Spells` says that a text is read as given tokens whatever delimiter is behind it, and `Delimits`
that it is whatever is behind it at all.  The two can be put together along a text (`Delimits.before`,
`Spells.before`), and hold of the pieces that types are written with: `delimits_marks`,
`spells_word`, `delimits_quote` and `spells_signed`.
-/

namespace ApiScribe.TypeScript

open Text

/-! ## Tokens -/

/-- The marks between the words of a type. -/
inductive Mark where
  | bar
  | ampersand
  | minus
  | question
  | colon
  | semicolon
  | comma
  | openParen
  | closeParen
  | openBracket
  | closeBracket
  | openBrace
  | closeBrace
  | openAngle
  | closeAngle
deriving DecidableEq, Repr

/-- The mark that a character is. -/
def Mark.ofChar? : Char → Option Mark
  | '|' => some .bar
  | '&' => some .ampersand
  | '-' => some .minus
  | '?' => some .question
  | ':' => some .colon
  | ';' => some .semicolon
  | ',' => some .comma
  | '(' => some .openParen
  | ')' => some .closeParen
  | '[' => some .openBracket
  | ']' => some .closeBracket
  | '\x7b' => some .openBrace
  | '\x7d' => some .closeBrace
  | '<' => some .openAngle
  | '>' => some .closeAngle
  | _ => none

/-- The tokens that types consist of. -/
inductive Token where
  | word (name : String)
  | numeral (spelling : String)
  | text (value : String)
  | mark (mark : Mark)
deriving DecidableEq, Repr

/-! ## The scanner -/

/-- What was begun and is not finished. -/
inductive ScanState where
  | idle
  | word (name : List Char)
  | numeral (digits : List Char)
  | fraction (digits : List Char)
  | text (value : List Char)
  | escape (value : List Char)
deriving DecidableEq

/-- Blanks, which separate tokens. -/
def isBlank (c : Char) : Bool :=
  c = ' ' || c = '\n' || c = '\t'

/-- The character that stands behind a backslash for another one. -/
def unescape? : Char → Option Char
  | 'n' => some '\n'
  | 'r' => some '\r'
  | 't' => some '\t'
  | '\x5c' => some '\x5c'
  | '\x27' => some '\x27'
  | _ => none

namespace ScanState

/-- The tokens that a first character makes, and what it begins. -/
def begin (alphabet : IdentifierAlphabet) (c : Char) : Option (List Token × ScanState) :=
  if alphabet.isStart c then some ([], .word [c])
  else if isAsciiDigit c then some ([], .numeral [c])
  else if c = '\x27' then some ([], .text [])
  else if isBlank c then some ([], .idle)
  else (Mark.ofChar? c).map fun mark => ([.mark mark], .idle)

/-- A token ends in front of a character. -/
def endBefore (alphabet : IdentifierAlphabet) (token : Token) (c : Char) :
    Option (List Token × ScanState) :=
  (begin alphabet c).map fun (tokens, state) => (token :: tokens, state)

/-- The tokens that the next character makes, and what is begun then.  No name follows a numeral
directly, no numeral has a zero in front of another digit, and no text has a line break in it. -/
def step (alphabet : IdentifierAlphabet) : ScanState → Char → Option (List Token × ScanState)
  | .idle, c => begin alphabet c
  | .word name, c =>
    if alphabet.isPart c then some ([], .word (name ++ [c]))
    else endBefore alphabet (.word (String.ofList name)) c
  | .numeral digits, c =>
    if isAsciiDigit c then
      if digits = ['0'] then none else some ([], .numeral (digits ++ [c]))
    else if c = '.' then some ([], .fraction (digits ++ [c]))
    else if alphabet.isPart c then none
    else endBefore alphabet (.numeral (String.ofList digits)) c
  | .fraction digits, c =>
    if isAsciiDigit c then some ([], .fraction (digits ++ [c]))
    else if alphabet.isPart c then none
    else endBefore alphabet (.numeral (String.ofList digits)) c
  | .text value, c =>
    if c = '\x27' then some ([.text (String.ofList value)], .idle)
    else if c = '\x5c' then some ([], .escape value)
    else if c = '\n' || c = '\r' then none
    else some ([], .text (value ++ [c]))
  | .escape value, c => (unescape? c).map fun c => ([], .text (value ++ [c]))

/-- The token that ends with the text, if there is one. -/
def finish : ScanState → Option (List Token)
  | .idle => some []
  | .word name => some [.word (String.ofList name)]
  | .numeral digits => some [.numeral (String.ofList digits)]
  | .fraction digits => some [.numeral (String.ofList digits)]
  | .text _ => none
  | .escape _ => none

/-- The tokens of the characters that are left. -/
def scan (alphabet : IdentifierAlphabet) : ScanState → List Char → Option (List Token)
  | state, [] => state.finish
  | state, c :: cs =>
    (state.step alphabet c).bind fun (tokens, next) =>
      (scan alphabet next cs).map (tokens ++ ·)

end ScanState

/-- The tokens of a text. -/
def Token.ofText? (alphabet : IdentifierAlphabet) (text : String) : Option (List Token) :=
  ScanState.scan alphabet .idle text.toList

variable {alphabet : IdentifierAlphabet}

namespace ScanState

variable {state next : ScanState} {c : Char} {tokens : List Token}

theorem scan_cons (h : state.step alphabet c = some (tokens, next)) (cs : List Char) :
    scan alphabet state (c :: cs) = (scan alphabet next cs).map (tokens ++ ·) := by
  rw [scan, h]
  rfl

/-- A character that goes on with what was begun makes no token yet. -/
theorem scan_begun (h : state.step alphabet c = some ([], next)) (cs : List Char) :
    scan alphabet state (c :: cs) = scan alphabet next cs := by
  rw [scan_cons h]
  exact Option.map_id_apply

end ScanState

/-! ## Delimiters -/

theorem IsDelimiter.toNat_lt {c : Char} (h : IsDelimiter c) : c.toNat < 128 := by
  have hall : " \n:;,|&?<>()[]\x7b\x7d=".toList.Forall fun c => c.toNat < 128 := by decide
  exact List.forall_iff_forall_mem.mp hall c h

/-- A delimiter continues no word. -/
theorem IsDelimiter.isPart_eq_false {c : Char} (h : IsDelimiter c) : alphabet.isPart c = false := by
  have hall : " \n:;,|&?<>()[]\x7b\x7d=".toList.Forall fun c =>
      (isAsciiLetter c || isAsciiDigit c || Naming.isMark c) = false := by decide
  rw [alphabet.isPart_ascii c h.toNat_lt]
  exact List.forall_iff_forall_mem.mp hall c h

/-- A delimiter continues no numeral. -/
theorem IsDelimiter.continues_no_numeral {c : Char} (h : IsDelimiter c) :
    isAsciiDigit c = false ∧ c ≠ '.' := by
  have hall : " \n:;,|&?<>()[]\x7b\x7d=".toList.Forall fun c =>
      isAsciiDigit c = false ∧ c ≠ '.' := by decide
  exact List.forall_iff_forall_mem.mp hall c h

/-- The text is read as the tokens, if a delimiter is behind it or nothing at all. -/
def Spells (alphabet : IdentifierAlphabet) (text : String) (tokens : List Token) : Prop :=
  ∀ rest, BeginsWithDelimiter rest →
    Token.ofText? alphabet (text ++ rest) = (Token.ofText? alphabet rest).map (tokens ++ ·)

/-- The text is read as the tokens, whatever is behind it. -/
def Delimits (alphabet : IdentifierAlphabet) (text : String) (tokens : List Token) : Prop :=
  ∀ rest, Token.ofText? alphabet (text ++ rest) = (Token.ofText? alphabet rest).map (tokens ++ ·)

variable {text other : String} {tokens others : List Token}

theorem Delimits.spells (h : Delimits alphabet text tokens) : Spells alphabet text tokens :=
  fun rest _ => h rest

theorem Delimits.append (h : Delimits alphabet text tokens)
    (hother : Delimits alphabet other others) : Delimits alphabet (text ++ other) (tokens ++ others) := by
  intro rest
  rw [String.append_assoc, h, hother, Option.map_map]
  simp only [Function.comp_def, List.append_assoc]

/-- Tokens stand behind a delimiter. -/
theorem Delimits.before (h : Delimits alphabet text tokens)
    (hother : Spells alphabet other others) : Spells alphabet (text ++ other) (tokens ++ others) := by
  intro rest hrest
  rw [String.append_assoc, h, hother rest hrest, Option.map_map]
  simp only [Function.comp_def, List.append_assoc]

/-- A delimiter stands behind tokens. -/
theorem Spells.before (h : Spells alphabet text tokens) (hother : Delimits alphabet other others)
    (hbegins : BeginsWithDelimiter other) (hne : other ≠ "") :
    Delimits alphabet (text ++ other) (tokens ++ others) := by
  intro rest
  rw [String.append_assoc, h _ (hbegins.append_of_ne_empty hne rest), hother, Option.map_map]
  simp only [Function.comp_def, List.append_assoc]

theorem ofText?_of_spells (h : Spells alphabet text tokens) :
    Token.ofText? alphabet text = some tokens := by
  have hall := h "" (by decide)
  rw [String.append_empty] at hall
  rw [hall]
  exact congrArg some (List.append_nil tokens)

/-! ## Marks -/

/-- The characters that are marks or blanks. -/
def punctuation : List Char :=
  " \n\t|&-?:;,()[]\x7b\x7d<>".toList

theorem step_of_mem_punctuation {c : Char} (h : c ∈ punctuation) :
    ScanState.idle.step alphabet c = some ((Mark.ofChar? c).toList.map Token.mark, .idle) := by
  have hascii : punctuation.Forall fun c =>
      c.toNat < 128 ∧ (isAsciiLetter c || Naming.isMark c) = false := by decide
  have hother : punctuation.Forall fun c =>
      (if isAsciiDigit c then some ([], ScanState.numeral [c])
        else if c = '\x27' then some ([], ScanState.text [])
        else if isBlank c then some ([], ScanState.idle)
        else (Mark.ofChar? c).map fun mark => ([Token.mark mark], ScanState.idle)) =
      some ((Mark.ofChar? c).toList.map Token.mark, .idle) := by decide
  obtain ⟨hlt, hletter⟩ := List.forall_iff_forall_mem.mp hascii c h
  have hstart : ¬ alphabet.isStart c = true := by
    rw [alphabet.isStart_ascii c hlt, hletter]
    exact Bool.false_ne_true
  rw [ScanState.step, ScanState.begin, if_neg hstart]
  exact List.forall_iff_forall_mem.mp hother c h

/-- A text of marks and blanks is read as its marks. -/
theorem delimits_marks (text : String) {tokens : List Token}
    (h : text.toList.Forall fun c => c ∈ punctuation)
    (htokens : (text.toList.flatMap fun c => (Mark.ofChar? c).toList.map Token.mark) = tokens) :
    Delimits alphabet text tokens := by
  subst htokens
  intro rest
  rw [List.forall_iff_forall_mem] at h
  rw [Token.ofText?, String.toList_append]
  generalize text.toList = cs at h
  induction cs with
  | nil => simp [Token.ofText?]
  | cons c cs ih =>
    obtain ⟨hc, hcs⟩ := List.forall_mem_cons.mp h
    rw [List.cons_append, ScanState.scan_cons (step_of_mem_punctuation hc), ih hcs,
      Option.map_map, List.flatMap_cons]
    simp only [Function.comp_def, List.append_assoc]

/-! ## Words -/

/-- What is begun ends in front of a delimiter. -/
theorem scan_of_endBefore {state : ScanState} {token : Token}
    (hstep : ∀ c, IsDelimiter c →
      state.step alphabet c = ScanState.endBefore alphabet token c)
    (hfinish : state.finish = some [token]) {rest : String} (hrest : BeginsWithDelimiter rest) :
    ScanState.scan alphabet state rest.toList =
      (Token.ofText? alphabet rest).map ([token] ++ ·) := by
  rw [Token.ofText?]
  cases hcs : rest.toList with
  | nil => exact hfinish
  | cons c cs =>
    have hc : IsDelimiter c := hrest c (by rw [hcs]; rfl)
    rw [ScanState.scan, ScanState.scan, hstep c hc, ScanState.endBefore, ScanState.step]
    cases ScanState.begin alphabet c with
    | none => rfl
    | some next =>
      obtain ⟨tokens, state⟩ := next
      simp only [Option.map_some, Option.bind_some, Option.map_map, Function.comp_def]
      rfl

/-- An identifier is read as one word. -/
theorem spells_word {name : String} (hstart : ∃ c ∈ name.toList.head?, alphabet.isStart c = true)
    (hpart : ∀ c ∈ name.toList, alphabet.isPart c = true) : Spells alphabet name [.word name] := by
  have hscan : ∀ (cs begun : List Char) (rest : String),
      (∀ c ∈ cs, alphabet.isPart c = true) → BeginsWithDelimiter rest →
      ScanState.scan alphabet (.word begun) (cs ++ rest.toList) =
        (Token.ofText? alphabet rest).map ([.word (String.ofList (begun ++ cs))] ++ ·) := by
    intro cs
    induction cs with
    | nil =>
      intro begun rest _ hrest
      rw [List.nil_append, List.append_nil]
      refine scan_of_endBefore (fun c hc => ?_) rfl hrest
      rw [ScanState.step, if_neg (ne_true_of_eq_false hc.isPart_eq_false)]
    | cons c cs ih =>
      intro begun rest hcs hrest
      obtain ⟨hc, hcs⟩ := List.forall_mem_cons.mp hcs
      have hstep : (ScanState.word begun).step alphabet c = some ([], .word (begun ++ [c])) :=
        if_pos hc
      rw [List.cons_append, ScanState.scan_begun hstep, ih (begun ++ [c]) rest hcs hrest,
        List.append_assoc]
      rfl
  intro rest hrest
  obtain ⟨c, hc, hstart⟩ := hstart
  obtain ⟨cs, hcs⟩ := List.head?_eq_some_iff.mp hc
  have hstep : ScanState.idle.step alphabet c = some ([], .word [c]) := if_pos hstart
  rw [hcs] at hpart
  rw [Token.ofText?, String.toList_append, hcs, List.cons_append, ScanState.scan_begun hstep,
    hscan cs [c] rest (List.forall_mem_cons.mp hpart).2 hrest, List.singleton_append, ← hcs,
    String.ofList_toList]

/-- A name in letters of ASCII is read as one word. -/
theorem spells_letters {name : String} (hne : name ≠ "")
    (h : name.toList.Forall fun c => isAsciiLetter c = true) :
    Spells alphabet name [.word name] := by
  rw [List.forall_iff_forall_mem] at h
  have hlist : name.toList ≠ [] := fun hnil => hne (String.toList_eq_nil_iff.mp hnil)
  obtain ⟨c, cs, hcs⟩ := List.exists_cons_of_ne_nil hlist
  refine spells_word ⟨c, by rw [hcs]; rfl, ?_⟩ fun c hc => alphabet.isPart_of_isAsciiLetter (h c hc)
  exact alphabet.isStart_of_isAsciiLetter (h c (by rw [hcs]; exact List.mem_cons_self))

/-! ## Quoted texts -/

theorem scan_escaped {c escaped : Char} (h : unescape? escaped = some c) (value more : List Char) :
    ScanState.scan alphabet (.text value) ('\x5c' :: escaped :: more) =
      ScanState.scan alphabet (.text (value ++ [c])) more := by
  have hstep : (ScanState.text value).step alphabet '\x5c' = some ([], .escape value) := rfl
  have hescaped : (ScanState.escape value).step alphabet escaped =
      some ([], .text (value ++ [c])) := by
    rw [ScanState.step, h]
    rfl
  rw [ScanState.scan_begun hstep, ScanState.scan_begun hescaped]

theorem unescape?_escapes : ∀ pair ∈ escapes, unescape? pair.1 = some pair.2 := by
  decide

/-- What is written for a character in a text is read as the character. -/
theorem scan_escapeChar (c : Char) (value more : List Char) :
    ScanState.scan alphabet (.text value) (escapeChar c ++ more) =
      ScanState.scan alphabet (.text (value ++ [c])) more := by
  obtain ⟨escaped, hwritten, hmem⟩ | ⟨hwritten, hbackslash, hquote, hline, hreturn⟩ :=
    escapeChar_cases c
  · rw [hwritten]
    exact scan_escaped (unescape?_escapes _ hmem) value more
  · have hstep : (ScanState.text value).step alphabet c = some ([], .text (value ++ [c])) := by
      simp [ScanState.step, hbackslash, hquote, hline, hreturn]
    rw [hwritten, List.singleton_append]
    exact ScanState.scan_begun hstep more

/-- **A text in quotes is read as the text.** -/
theorem delimits_quote (value : String) : Delimits alphabet (quote value) [.text value] := by
  have hscan : ∀ cs begun more : List Char,
      ScanState.scan alphabet (.text begun) (cs.flatMap escapeChar ++ more) =
        ScanState.scan alphabet (.text (begun ++ cs)) more := by
    intro cs
    induction cs with
    | nil =>
      intro begun more
      rw [List.flatMap_nil, List.nil_append, List.append_nil]
    | cons c cs ih =>
      intro begun more
      rw [List.flatMap_cons, List.append_assoc, scan_escapeChar, ih, List.append_assoc]
      rfl
  have hopen : ScanState.idle.step alphabet '\x27' = some ([], .text []) := by
    have hstart : alphabet.isStart '\x27' = false := by
      rw [alphabet.isStart_ascii _ (by decide)]
      rfl
    rw [ScanState.step, ScanState.begin, hstart]
    rfl
  have hclose : (ScanState.text value.toList).step alphabet '\x27' =
      some ([.text (String.ofList value.toList)], .idle) := rfl
  intro rest
  have hlist : (quote value ++ rest).toList =
      '\x27' :: (value.toList.flatMap escapeChar ++ '\x27' :: rest.toList) := by
    rw [quote, escape]
    simp [String.toList_append]
  rw [Token.ofText?, hlist, ScanState.scan_begun hopen, hscan, List.nil_append,
    ScanState.scan_cons hclose, String.ofList_toList]
  rfl

/-! ## Numerals -/

/-- The digits of a natural number: no zero is in front of another digit. -/
def IsWhole (digits : List Char) : Prop :=
  (∀ c ∈ digits, isAsciiDigit c = true) ∧ (digits = ['0'] ∨ ∃ c cs, digits = c :: cs ∧ c ≠ '0')

/-- The spelling of a number without a sign. -/
inductive IsNumeral : List Char → Prop
  | whole {digits : List Char} (h : IsWhole digits) : IsNumeral digits
  | fraction {digits places : List Char} (h : IsWhole digits)
    (hplaces : ∀ c ∈ places, isAsciiDigit c = true) : IsNumeral (digits ++ '.' :: places)

/-- The digits of a natural number are read up to what is behind them. -/
theorem scan_whole {digits : List Char} (h : IsWhole digits) (more : List Char) :
    ScanState.scan alphabet .idle (digits ++ more) =
      ScanState.scan alphabet (.numeral digits) more := by
  have hfirst : ∀ c, isAsciiDigit c = true →
      ScanState.idle.step alphabet c = some ([], .numeral [c]) := by
    intro c hc
    rw [ScanState.step, ScanState.begin, alphabet.isStart_eq_false_of_isAsciiDigit hc, hc]
    rfl
  obtain ⟨hdigits, rfl | ⟨c, cs, rfl, hc⟩⟩ := h
  · exact ScanState.scan_begun (hfirst '0' rfl) more
  · obtain ⟨hdigit, hdigits⟩ := List.forall_mem_cons.mp hdigits
    rw [List.cons_append, ScanState.scan_begun (hfirst c hdigit)]
    have hrest : ∀ cs begun : List Char, (∀ d ∈ cs, isAsciiDigit d = true) →
        ScanState.scan alphabet (.numeral (c :: begun)) (cs ++ more) =
          ScanState.scan alphabet (.numeral (c :: begun ++ cs)) more := by
      intro cs
      induction cs with
      | nil =>
        intro begun _
        rw [List.append_nil]
        rfl
      | cons d cs ih =>
        intro begun hcs
        obtain ⟨hd, hcs⟩ := List.forall_mem_cons.mp hcs
        have hzero : c :: begun ≠ ['0'] := fun heq => hc (List.cons.inj heq).1
        have hstep : (ScanState.numeral (c :: begun)).step alphabet d =
            some ([], .numeral (c :: (begun ++ [d]))) := by
          rw [ScanState.step, if_pos hd, if_neg hzero]
          rfl
        rw [List.cons_append, ScanState.scan_begun hstep, ih _ hcs]
        simp only [List.cons_append, List.append_assoc, List.nil_append]
    exact hrest cs [] hdigits

theorem scan_places {places : List Char} (h : ∀ c ∈ places, isAsciiDigit c = true)
    (digits more : List Char) :
    ScanState.scan alphabet (.fraction digits) (places ++ more) =
      ScanState.scan alphabet (.fraction (digits ++ places)) more := by
  induction places generalizing digits with
  | nil => rw [List.nil_append, List.append_nil]
  | cons c cs ih =>
    obtain ⟨hc, hcs⟩ := List.forall_mem_cons.mp h
    have hstep : (ScanState.fraction digits).step alphabet c =
        some ([], .fraction (digits ++ [c])) := if_pos hc
    rw [List.cons_append, ScanState.scan_begun hstep, ih hcs, List.append_assoc]
    rfl

/-- **A numeral is read as it is spelled.** -/
theorem spells_numeral {cs : List Char} (h : IsNumeral cs) :
    Spells alphabet (String.ofList cs) [.numeral (String.ofList cs)] := by
  intro rest hrest
  rw [Token.ofText?, String.toList_append, String.toList_ofList]
  cases h with
  | whole h =>
    rw [scan_whole h]
    refine scan_of_endBefore (fun c hc => ?_) rfl hrest
    obtain ⟨hdigit, hpoint⟩ := hc.continues_no_numeral
    rw [ScanState.step, hdigit, if_neg Bool.false_ne_true, if_neg hpoint, hc.isPart_eq_false,
      if_neg Bool.false_ne_true]
  | @fraction digits places h hplaces =>
    have hpoint : (ScanState.numeral digits).step alphabet '.' =
        some ([], .fraction (digits ++ ['.'])) := rfl
    rw [List.append_assoc, scan_whole h, List.cons_append, ScanState.scan_begun hpoint,
      scan_places hplaces, List.append_assoc, List.singleton_append]
    refine scan_of_endBefore (fun c hc => ?_) rfl hrest
    rw [ScanState.step, hc.continues_no_numeral.1, if_neg Bool.false_ne_true, hc.isPart_eq_false,
      if_neg Bool.false_ne_true]

/-- The tokens of a number, which may have a sign. -/
def numeralTokens : List Char → List Token
  | '-' :: digits => [.mark .minus, .numeral (String.ofList digits)]
  | digits => [.numeral (String.ofList digits)]

/-- The spelling of a number. -/
def IsSignedNumeral (cs : List Char) : Prop :=
  IsNumeral cs ∨ ∃ digits, cs = '-' :: digits ∧ IsNumeral digits

theorem IsWhole.exists_cons {digits : List Char} (h : IsWhole digits) :
    ∃ c cs, digits = c :: cs ∧ isAsciiDigit c = true := by
  obtain ⟨hdigits, rfl | ⟨c, cs, rfl, -⟩⟩ := h
  · exact ⟨'0', [], rfl, rfl⟩
  · exact ⟨c, cs, rfl, hdigits c List.mem_cons_self⟩

theorem IsNumeral.exists_cons {cs : List Char} (h : IsNumeral cs) :
    ∃ c rest, cs = c :: rest ∧ isAsciiDigit c = true := by
  cases h with
  | whole h => exact h.exists_cons
  | fraction h _ =>
    obtain ⟨c, cs, rfl, hc⟩ := h.exists_cons
    exact ⟨c, _, List.cons_append, hc⟩

theorem IsNumeral.numeralTokens_eq {cs : List Char} (h : IsNumeral cs) :
    numeralTokens cs = [.numeral (String.ofList cs)] := by
  obtain ⟨c, rest, rfl, hc⟩ := h.exists_cons
  have hminus : c ≠ '-' := by
    rintro rfl
    exact absurd hc (by decide)
  rw [numeralTokens.eq_2]
  intro digits heq
  exact hminus (List.cons.inj heq).1

theorem ofList_minus (digits : List Char) :
    String.ofList ('-' :: digits) = "-" ++ String.ofList digits := by
  rw [← String.toList_inj, String.toList_append, String.toList_ofList, String.toList_ofList,
    String.toList_ofList]
  rfl

theorem spells_signed {cs : List Char} (h : IsSignedNumeral cs) :
    Spells alphabet (String.ofList cs) (numeralTokens cs) := by
  rcases h with h | ⟨digits, rfl, h⟩
  · rw [h.numeralTokens_eq]
    exact spells_numeral h
  · have hminus : Delimits alphabet "-" [.mark .minus] := delimits_marks "-" (by decide) rfl
    rw [ofList_minus]
    exact hminus.before (spells_numeral h)

end ApiScribe.TypeScript
