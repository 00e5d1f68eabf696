import ApiScribe.Proofs.Identifiers
import ApiScribe.TypeScript.Printer
import Mathlib.Data.List.TakeWhile

/-!
# What a literal stands for

A literal for a text is written in single quotes, or as a template between backquotes.  Here such a
literal is read and evaluated as the language has it.  The reader (`LiteralState.step`) goes through the
literal once: a backslash and the character behind it are one character, and in a template a dollar with
an opening brace behind it begins a substitution.  Of the expressions in substitutions, names and calls
with one argument are read.  Whatever else stands there, and an escape by number or of a line break, has
no reading here.

A name stands for an argument if there is one of that name, and for a function of the library
otherwise.  Evaluation fails (`none`) where the program would.

What is written for a character comes back as the character (`run_quotedChar`, `run_templateChar`), but
for a dollar in a template that only holds if no brace is behind it.
-/

namespace ApiScribe.Script

open Text

/-! ## Operands -/

/-- An expression inside a template: a name, or a call with one argument. -/
inductive Operand where
  | ident (name : String)
  | call (function : String) (argument : Operand)
deriving DecidableEq, Repr

/-- The name that a word is, unless it is reserved or does not begin like one. -/
def name? (alphabet : IdentifierAlphabet) (word : List Char) : Option String :=
  if word.head?.any alphabet.isStart && !Naming.isReserved (String.ofList word) then
    some (String.ofList word)
  else none

/-- The operand that a text is: a word, and behind it an argument in parentheses if it is a call. -/
def Operand.ofChars? (alphabet : IdentifierAlphabet) (cs : List Char) : Option Operand :=
  match _hrest : cs.dropWhile alphabet.isPart with
  | [] => (name? alphabet cs).map .ident
  | c :: rest =>
    if c = '(' ∧ rest.getLast? = some ')' then do
      let function ← name? alphabet (cs.takeWhile alphabet.isPart)
      let argument ← ofChars? alphabet rest.dropLast
      some (.call function argument)
    else none
termination_by cs.length
decreasing_by
  have hle := (List.dropWhile_sublist (l := cs) alphabet.isPart).length_le
  rw [_hrest, List.length_cons] at hle
  rw [List.length_dropLast]
  omega

/-- What a name can stand for: a text, or a function of the library that makes texts of values. -/
inductive Value where
  | text (content : String)
  | encodeURIComponent
  | string
deriving DecidableEq, Repr

/-- The characters that percent-encoding leaves as they are. -/
def isUnreserved (c : Char) : Bool :=
  isAsciiLetter c || isAsciiDigit c || "-_.!~*'()".toList.contains c

/-- A hexadecimal digit. -/
def hexDigit (n : Nat) : Char :=
  asciiUpper (Nat.digitChar n)

/-- A byte as a percent sign and two digits. -/
def percentByte (byte : UInt8) : List Char :=
  ['%', hexDigit (byte.toNat / 16), hexDigit (byte.toNat % 16)]

/-- The percent-encoding of a text: the bytes of all characters that are not left as they are. -/
def percentEncode (content : String) : String :=
  String.ofList (content.toList.flatMap fun c =>
    if isUnreserved c then [c] else (String.utf8EncodeChar c).flatMap percentByte)

/-- A call of a function; texts are no functions. -/
def Value.apply? : Value → Value → Option Value
  | .encodeURIComponent, .text content => some (.text (percentEncode content))
  | .string, .text content => some (.text content)
  | _, _ => none

section Values

variable (names : List String) (arguments : String → String)

/-- What a name stands for.  The arguments hide the library. -/
def nameValue? (name : String) : Option Value :=
  if name ∈ names then some (.text (arguments name))
  else if name = "encodeURIComponent" then some .encodeURIComponent
  else if name = "String" then some .string
  else none

/-- The value of an operand. -/
def Operand.value? : Operand → Option Value
  | .ident name => nameValue? names arguments name
  | .call function argument => do
    let function ← nameValue? names arguments function
    let argument ← argument.value?
    function.apply? argument

/-- A piece of a literal. -/
inductive Piece where
  | char (c : Char)
  | value (operand : Operand)
deriving DecidableEq, Repr

/-- The text that a piece contributes; functions have none here. -/
def Piece.chars? : Piece → Option (List Char)
  | .char c => some [c]
  | .value operand =>
    match operand.value? names arguments with
    | some (.text content) => some content.toList
    | _ => none

/-- The text that pieces make together. -/
def text? : List Piece → Option (List Char)
  | [] => some []
  | piece :: rest => do
    let cs ← piece.chars? names arguments
    let more ← text? rest
    some (cs ++ more)

end Values

/-! ## The reader -/

/-- Where the reader of a literal is. -/
inductive LiteralState where
  | start
  | quoted
  | quotedEscape
  | template
  | templateEscape
  | dollar
  | lineEnd
  | substitution (done : List Char)
  | closed
deriving DecidableEq

/-- The character that a backslash and the character behind it stand for.  Escapes by number and line
breaks behind a backslash are left out. -/
def cooked? (c : Char) : Option Char :=
  if c = 'b' then some '\x08'
  else if c = 't' then some '\t'
  else if c = 'n' then some '\n'
  else if c = 'v' then some '\x0b'
  else if c = 'f' then some '\x0c'
  else if c = 'r' then some '\r'
  else if isAsciiDigit c || "xu\n\r\u2028\u2029".toList.contains c then none
  else some c

namespace LiteralState

/-- The pieces that a character of a template makes, and what it begins.  Line breaks are line feeds. -/
def templateStep (c : Char) : List Piece × LiteralState :=
  if c = '\x60' then ([], .closed)
  else if c = '\x5c' then ([], .templateEscape)
  else if c = '$' then ([], .dollar)
  else if c = '\r' then ([.char '\n'], .lineEnd)
  else ([.char c], .template)

/-- The pieces that the next character makes, and where the reader is then. -/
def step (alphabet : IdentifierAlphabet) : LiteralState → Char → Option (List Piece × LiteralState)
  | .start, c =>
    if c = '\x27' then some ([], .quoted) else if c = '\x60' then some ([], .template) else none
  | .quoted, c =>
    if c = '\x27' then some ([], .closed)
    else if c = '\x5c' then some ([], .quotedEscape)
    else if c = '\n' || c = '\r' then none
    else some ([.char c], .quoted)
  | .quotedEscape, c => (cooked? c).map fun c => ([.char c], .quoted)
  | .template, c => some (templateStep c)
  | .templateEscape, c => (cooked? c).map fun c => ([.char c], .template)
  | .dollar, c =>
    if c = '\x7b' then some ([], .substitution [])
    else some (.char '$' :: (templateStep c).1, (templateStep c).2)
  | .lineEnd, c => if c = '\n' then some ([], .template) else some (templateStep c)
  | .substitution done, c =>
    if c = '\x7d' then
      (Operand.ofChars? alphabet done).map fun operand => ([.value operand], .template)
    else some ([], .substitution (done ++ [c]))
  | .closed, _ => none

/-- The pieces of the rest of a literal. -/
def read (alphabet : IdentifierAlphabet) : LiteralState → List Char → Option (List Piece)
  | state, [] => if state = .closed then some [] else none
  | state, c :: cs =>
    (state.step alphabet c).bind fun (pieces, next) =>
      (read alphabet next cs).map (pieces ++ ·)

end LiteralState

section Runs

variable (alphabet : IdentifierAlphabet) (names : List String) (arguments : String → String)

/-- The text that the rest of a literal stands for. -/
def run (state : LiteralState) (cs : List Char) : Option (List Char) :=
  (state.read alphabet cs).bind (text? names arguments)

/-- The text that a literal stands for, where the names stand for their arguments. -/
def evaluate (literal : String) : Option String :=
  (run alphabet names arguments .start literal.toList).map String.ofList

variable {alphabet names arguments}

theorem text?_append (pieces others : List Piece) :
    text? names arguments (pieces ++ others) =
      (text? names arguments pieces).bind fun cs =>
        (text? names arguments others).map (cs ++ ·) := by
  induction pieces with
  | nil =>
    rw [List.nil_append, text?, Option.bind_some]
    exact Option.map_id_apply.symm
  | cons piece pieces ih =>
    rw [List.cons_append, text?, text?, ih]
    cases piece.chars? names arguments with
    | none => rfl
    | some cs =>
      cases text? names arguments pieces with
      | none => rfl
      | some before =>
        cases text? names arguments others with
        | none => rfl
        | some more => exact congrArg some (List.append_assoc cs before more).symm

variable {state next : LiteralState} {c d : Char} {pieces : List Piece}

/-- One step of the reader, and what it adds to the text. -/
theorem run_cons (h : state.step alphabet c = some (pieces, next)) (cs : List Char) :
    run alphabet names arguments state (c :: cs) =
      (text? names arguments pieces).bind fun before =>
        (run alphabet names arguments next cs).map (before ++ ·) := by
  have hread : state.read alphabet (c :: cs) = (next.read alphabet cs).map (pieces ++ ·) := by
    rw [LiteralState.read, h]
    rfl
  rw [run, run, hread]
  cases next.read alphabet cs with
  | none => cases text? names arguments pieces <;> rfl
  | some others => exact text?_append pieces others

/-- A character that goes on with what was begun adds nothing. -/
theorem run_begun (next : LiteralState) (h : state.step alphabet c = some ([], next))
    (cs : List Char) :
    run alphabet names arguments state (c :: cs) = run alphabet names arguments next cs := by
  rw [run_cons h, text?, Option.bind_some]
  exact Option.map_id_apply

theorem run_char (h : state.step alphabet c = some ([.char d], next)) (cs : List Char) :
    run alphabet names arguments state (c :: cs) =
      (run alphabet names arguments next cs).map (d :: ·) := by
  rw [run_cons h]
  rfl

theorem run_stuck (h : state.step alphabet c = none) (cs : List Char) :
    run alphabet names arguments state (c :: cs) = none := by
  rw [run, LiteralState.read, h]
  rfl

/-! ## Quoted texts -/

theorem cooked?_escapes : ∀ pair ∈ TypeScript.escapes, cooked? pair.1 = some pair.2 := by
  decide

/-- **What is written for a character in quotes** is read as the character. -/
theorem run_quotedChar (c : Char) (more : List Char) :
    run alphabet names arguments .quoted (TypeScript.escapeChar c ++ more) =
      (run alphabet names arguments .quoted more).map (c :: ·) := by
  obtain ⟨escaped, hwritten, hmem⟩ | ⟨hwritten, hbackslash, hquote, hline, hreturn⟩ :=
    TypeScript.escapeChar_cases c
  · have hstep : LiteralState.quotedEscape.step alphabet escaped = some ([.char c], .quoted) := by
      rw [LiteralState.step, cooked?_escapes _ hmem]
      rfl
    rw [hwritten, List.cons_append, List.singleton_append, run_begun .quotedEscape rfl, run_char hstep]
  · have hstep : LiteralState.quoted.step alphabet c = some ([.char c], .quoted) := by
      simp [LiteralState.step, hquote, hbackslash, hline, hreturn]
    rw [hwritten, List.singleton_append]
    exact run_char hstep more

/-- **A quoted text stands for itself.** -/
theorem evaluate_quote (content : String) :
    evaluate alphabet names arguments (TypeScript.quote content) = some content := by
  have hrun : ∀ cs : List Char,
      run alphabet names arguments .quoted (cs.flatMap TypeScript.escapeChar ++ ['\x27']) =
        some cs := by
    intro cs
    induction cs with
    | nil => rfl
    | cons c cs ih =>
      rw [List.flatMap_cons, List.append_assoc, run_quotedChar, ih]
      rfl
  have hlist : (TypeScript.quote content).toList =
      '\x27' :: (content.toList.flatMap TypeScript.escapeChar ++ ['\x27']) := by
    rw [TypeScript.quote, TypeScript.escape]
    simp [String.toList_append]
  rw [evaluate, hlist, run_begun .quoted rfl, hrun, Option.map_some, String.ofList_toList]

/-! ## Templates -/

/-- A dollar without a brace behind it is a character like others. -/
theorem run_dollar {more : List Char} (h : more.head? ≠ some '\x7b') :
    run alphabet names arguments .dollar more =
      (run alphabet names arguments .template more).map ('$' :: ·) := by
  cases more with
  | nil => rfl
  | cons c more =>
    have hc : c ≠ '\x7b' := fun heq => h (by rw [heq]; rfl)
    have hstep : LiteralState.dollar.step alphabet c =
        some (.char '$' :: (LiteralState.templateStep c).1, (LiteralState.templateStep c).2) :=
      if_neg hc
    have htemplate : LiteralState.template.step alphabet c =
        some ((LiteralState.templateStep c).1, (LiteralState.templateStep c).2) := rfl
    rw [run_cons hstep, run_cons htemplate, text?, Piece.chars?]
    cases text? names arguments (LiteralState.templateStep c).1 with
    | none => rfl
    | some before =>
      cases run alphabet names arguments (LiteralState.templateStep c).2 more <;> rfl

/-- **What is written for a character in a template** is read as the character, unless it is a carriage
return, or a dollar in front of a brace. -/
theorem run_templateChar (hreturn : c ≠ '\r') {more : List Char}
    (hdollar : c = '$' → more.head? ≠ some '\x7b') :
    run alphabet names arguments .template (TypeScript.escapeTemplateChar c ++ more) =
      (run alphabet names arguments .template more).map (c :: ·) := by
  have hescaped : ∀ {c : Char}, cooked? c = some c →
      run alphabet names arguments .template ('\x5c' :: c :: more) =
        (run alphabet names arguments .template more).map (c :: ·) := by
    intro c hcooked
    have hstep : LiteralState.templateEscape.step alphabet c = some ([.char c], .template) := by
      rw [LiteralState.step, hcooked]
      rfl
    rw [run_begun .templateEscape rfl, run_char hstep]
  rw [TypeScript.escapeTemplateChar]
  by_cases hbackslash : c = '\x5c'
  · rw [if_pos hbackslash, hbackslash]
    exact hescaped rfl
  rw [if_neg hbackslash]
  by_cases hquote : c = '\x60'
  · rw [if_pos hquote, hquote]
    exact hescaped rfl
  rw [if_neg hquote, List.singleton_append]
  by_cases hc : c = '$'
  · rw [hc, run_begun .dollar rfl]
    exact run_dollar (hdollar hc)
  · have hstep : LiteralState.template.step alphabet c = some ([.char c], .template) := by
      simp [LiteralState.step, LiteralState.templateStep, hquote, hbackslash, hc, hreturn]
    exact run_char hstep more

/-- A substitution ends with the next brace that closes. -/
theorem run_substitution {cs : List Char} (h : '\x7d' ∉ cs) (done more : List Char) :
    run alphabet names arguments (.substitution done) (cs ++ '\x7d' :: more) =
      (Operand.ofChars? alphabet (done ++ cs)).bind fun operand =>
        ((Piece.value operand).chars? names arguments).bind fun before =>
          (run alphabet names arguments .template more).map (before ++ ·) := by
  induction cs generalizing done with
  | nil =>
    rw [List.nil_append, List.append_nil]
    cases hoperand : Operand.ofChars? alphabet done with
    | none =>
      have hstep : (LiteralState.substitution done).step alphabet '\x7d' = none := by
        rw [LiteralState.step, if_pos rfl, hoperand]
        rfl
      exact run_stuck hstep more
    | some operand =>
      have hstep : (LiteralState.substitution done).step alphabet '\x7d' =
          some ([.value operand], .template) := by
        rw [LiteralState.step, if_pos rfl, hoperand]
        rfl
      rw [run_cons hstep, Option.bind_some, text?, text?]
      cases (Piece.value operand).chars? names arguments with
      | none => rfl
      | some before =>
        simp only [Option.bind_some, Option.bind_eq_bind, List.append_nil]
  | cons c cs ih =>
    rw [List.mem_cons, not_or] at h
    have hstep : (LiteralState.substitution done).step alphabet c =
        some ([], .substitution (done ++ [c])) := if_neg (Ne.symm h.1)
    rw [List.cons_append, run_begun _ hstep, ih h.2, List.append_assoc]
    rfl

/-- A substitution that no brace closes has no reading. -/
theorem run_unclosed {cs : List Char} (h : '\x7d' ∉ cs) (done : List Char) :
    run alphabet names arguments (.substitution done) cs = none := by
  induction cs generalizing done with
  | nil => rfl
  | cons c cs ih =>
    rw [List.mem_cons, not_or] at h
    have hstep : (LiteralState.substitution done).step alphabet c =
        some ([], .substitution (done ++ [c])) := if_neg (Ne.symm h.1)
    rw [run_begun _ hstep, ih h.2]

end Runs

/-! ## Names and calls -/

variable {alphabet : IdentifierAlphabet}

theorem ofChars?_eq_of_isPart {cs : List Char} (h : ∀ c ∈ cs, alphabet.isPart c = true) :
    Operand.ofChars? alphabet cs = (name? alphabet cs).map .ident := by
  have hrest : cs.dropWhile alphabet.isPart = [] := List.dropWhile_eq_nil_iff.mpr h
  rw [Operand.ofChars?]
  split
  next => rfl
  next heq => rw [hrest] at heq; cases heq

/-- A word that is a name is read as the name, and any other one not at all. -/
theorem ofChars?_word {name : String} (h : '(' ∉ name.toList) (operand : Operand) :
    Operand.ofChars? alphabet name.toList = some operand ↔
      operand = .ident name ∧ alphabet.Accepts name := by
  by_cases hpart : ∀ c ∈ name.toList, alphabet.isPart c = true
  · rw [ofChars?_eq_of_isPart hpart, name?, String.ofList_toList]
    split
    next haccepted =>
      rw [Bool.and_eq_true, Option.any_eq_true, Bool.not_eq_true'] at haccepted
      rw [Option.map_some, Option.some_inj]
      exact ⟨fun heq => ⟨heq.symm, haccepted.1, hpart, haccepted.2⟩, fun heq => heq.1.symm⟩
    next hrejected =>
      refine iff_of_false (by simp) fun h => hrejected ?_
      rw [Bool.and_eq_true, Option.any_eq_true, Bool.not_eq_true']
      exact ⟨h.2.start, h.2.notReserved⟩
  · refine iff_of_false ?_ fun h => hpart h.2.part
    rw [Operand.ofChars?]
    split
    next hnil => exact absurd (List.dropWhile_eq_nil_iff.mp hnil) hpart
    next c rest hrest =>
      have hmem : c ∈ name.toList :=
        (List.dropWhile_sublist _).subset (hrest ▸ List.mem_cons_self)
      have hopen : ¬ (c = '(' ∧ rest.getLast? = some ')') := fun hopen => h (hopen.1 ▸ hmem)
      rw [if_neg hopen]
      exact nofun

/-- A call of an accepted name is read as its argument is. -/
theorem ofChars?_call {function : String} (h : alphabet.Accepts function) (argument : List Char) :
    Operand.ofChars? alphabet (function.toList ++ '(' :: argument ++ [')']) =
      (Operand.ofChars? alphabet argument).map (.call function) := by
  have hopen : alphabet.isPart '(' = false := by
    rw [alphabet.isPart_ascii '(' (by decide)]
    rfl
  have htake : (function.toList ++ '(' :: argument ++ [')']).takeWhile alphabet.isPart =
      function.toList := by
    rw [List.append_assoc, List.takeWhile_append_of_pos h.part, List.cons_append,
      List.takeWhile_cons_of_neg (by rw [hopen]; exact Bool.false_ne_true), List.append_nil]
  have hdrop : (function.toList ++ '(' :: argument ++ [')']).dropWhile alphabet.isPart =
      '(' :: (argument ++ [')']) := by
    rw [List.append_assoc, List.dropWhile_append_of_pos h.part, List.cons_append,
      List.dropWhile_cons_of_neg (by rw [hopen]; exact Bool.false_ne_true)]
  have hname : name? alphabet function.toList = some function := by
    rw [name?, String.ofList_toList, if_pos]
    rw [Bool.and_eq_true, Option.any_eq_true, Bool.not_eq_true']
    exact ⟨h.start, h.notReserved⟩
  rw [Operand.ofChars?]
  split
  next hnil =>
    rw [hdrop] at hnil
    cases hnil
  next c rest hrest =>
    obtain ⟨rfl, rfl⟩ := List.cons.inj (hdrop.symm.trans hrest)
    rw [if_pos ⟨rfl, by simp⟩, htake, hname, List.dropLast_concat]
    cases Operand.ofChars? alphabet argument <;> rfl

end ApiScribe.Script
