import ApiScribe.Proofs.TypeTokens

/-!
# The tokens of a declaration

A declaration has one mark more than a type: the equals sign.  `Lexeme.scan` is the scanner of types with
this mark.  It goes through a text from one equals sign to the next, and what is between them is read as
in a type: a text that is read as tokens has no equals sign outside of quotes
(`ScanState.step_equals`), so the first one behind it is found (`Lexeme.ofText?_equals`).
-/

namespace ApiScribe.TypeScript

open Text

/-- A token of a declaration. -/
inductive Lexeme where
  | token (token : Token)
  | equals
deriving DecidableEq, Repr

/-- Is the scanner inside of a quoted text? -/
def ScanState.isQuoted : ScanState → Bool
  | .text _ => true
  | .escape _ => true
  | _ => false

namespace Lexeme

/-- The tokens of the characters that are left. -/
def scan (alphabet : IdentifierAlphabet) : ScanState → List Char → Option (List Lexeme)
  | state, [] => state.finish.map (List.map token)
  | state, c :: cs =>
    if c = '=' ∧ state.isQuoted = false then
      state.finish.bind fun tokens =>
        (scan alphabet .idle cs).map fun rest => tokens.map token ++ equals :: rest
    else
      (state.step alphabet c).bind fun (tokens, next) =>
        (scan alphabet next cs).map (tokens.map token ++ ·)

/-- The tokens of a text. -/
def ofText? (alphabet : IdentifierAlphabet) (text : String) : Option (List Lexeme) :=
  scan alphabet .idle text.toList

end Lexeme

variable {alphabet : IdentifierAlphabet}

/-- Outside of quotes no token of a type has an equals sign in it or behind it. -/
theorem ScanState.step_equals {state : ScanState} (h : state.isQuoted = false) :
    state.step alphabet '=' = none := by
  have hpart : alphabet.isPart '=' = false := by
    rw [alphabet.isPart_ascii _ (by decide)]
    decide
  have hbegin : ScanState.begin alphabet '=' = none := by
    have hstart : alphabet.isStart '=' = false := by
      rw [alphabet.isStart_ascii _ (by decide)]
      decide
    rw [ScanState.begin, hstart]
    decide
  have hend : ∀ token, ScanState.endBefore alphabet token '=' = none := by
    intro token
    rw [ScanState.endBefore, hbegin, Option.map_none]
  have hdigit : isAsciiDigit '=' = false := by decide
  cases state with
  | idle => exact hbegin
  | word name =>
    rw [ScanState.step, hpart, if_neg Bool.false_ne_true, hend]
  | numeral digits =>
    rw [ScanState.step, hdigit, if_neg Bool.false_ne_true, if_neg (by decide), hpart,
      if_neg Bool.false_ne_true, hend]
  | fraction digits =>
    rw [ScanState.step, hdigit, if_neg Bool.false_ne_true, hpart, if_neg Bool.false_ne_true, hend]
  | text => cases h
  | escape => cases h

namespace Lexeme

/-- What is read as in a type is read so up to an equals sign, or to the end. -/
theorem scan_append {state : ScanState} {cs more : List Char} {tokens : List Token}
    (h : ScanState.scan alphabet state cs = some tokens)
    (hmore : more = [] ∨ ∃ rest, more = '=' :: rest) :
    scan alphabet state (cs ++ more) = (scan alphabet .idle more).map (tokens.map token ++ ·) := by
  induction cs generalizing state tokens with
  | nil =>
    rw [ScanState.scan] at h
    rw [List.nil_append]
    rcases hmore with rfl | ⟨rest, rfl⟩
    · rw [scan, scan, h]
      simp [ScanState.finish]
    · have hquoted : state.isQuoted = false := by
        cases state <;> first | rfl | cases h
      rw [scan, scan, if_pos ⟨rfl, hquoted⟩, if_pos ⟨rfl, rfl⟩, h]
      simp only [ScanState.finish, Option.bind_some, List.map_nil, List.nil_append, Option.map_map]
      rfl
  | cons c cs ih =>
    rw [ScanState.scan] at h
    obtain ⟨⟨first, next⟩, hstep, hrest⟩ := Option.bind_eq_some_iff.mp h
    obtain ⟨others, hothers, rfl⟩ := Option.map_eq_some_iff.mp hrest
    have hkept : ¬ (c = '=' ∧ state.isQuoted = false) := by
      rintro ⟨rfl, hquoted⟩
      rw [ScanState.step_equals hquoted] at hstep
      cases hstep
    rw [List.cons_append, scan, if_neg hkept, hstep, Option.bind_some]
    dsimp only
    rw [ih hothers, Option.map_map]
    simp only [Function.comp_def, List.map_append, List.append_assoc]

/-- A declaration without an equals sign. -/
theorem ofText?_of_tokens {text : String} {tokens : List Token}
    (h : Token.ofText? alphabet text = some tokens) :
    ofText? alphabet text = some (tokens.map token) := by
  have hall := scan_append h (Or.inl rfl)
  rw [List.append_nil] at hall
  rw [ofText?, hall]
  exact congrArg some (List.append_nil _)

/-- A declaration is read up to an equals sign and behind it. -/
theorem ofText?_equals {text : String} {tokens : List Token}
    (h : Token.ofText? alphabet text = some tokens) (rest : String) :
    ofText? alphabet (text ++ "=" ++ rest) =
      (ofText? alphabet rest).map (tokens.map token ++ equals :: ·) := by
  have hlist : (text ++ "=" ++ rest).toList = text.toList ++ '=' :: rest.toList := by
    rw [String.toList_append, String.toList_append, List.append_assoc]
    rfl
  have hequals : scan alphabet .idle ('=' :: rest.toList) =
      (scan alphabet .idle rest.toList).map (equals :: ·) := by
    rw [scan, if_pos ⟨rfl, rfl⟩]
    rfl
  rw [ofText?, hlist, scan_append h (Or.inr ⟨_, rfl⟩), hequals, Option.map_map]
  rfl

end Lexeme

end ApiScribe.TypeScript
