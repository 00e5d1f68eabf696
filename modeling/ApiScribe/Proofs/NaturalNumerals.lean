import ApiScribe.Proofs.ShortestDecimals

/-!
# Natural numbers as they are written

Item numbers in pointers and status codes in tables of responses are texts.  A text spells a natural
number (`Numeral.IsNatural`) if it is a row of ASCII digits, or such a row behind a plus sign; zeros in
front do no harm, and nothing else may stand there.  So a number has many spellings, and a text spells
one number at most.

`Numeral.below?_eq_some_iff` says that the reader finds exactly these numbers, as far as they are below
its bound.
-/

namespace ApiScribe.Numeral

open Text TypeScript

variable {bound n : Nat} {c : Char} {cs digits : List Char}

/-- The text is a row of digits with the value `n`, or a plus sign and such a row. -/
def IsNatural (cs : List Char) (n : Nat) : Prop :=
  ∃ digits, digits ≠ [] ∧ (∀ c ∈ digits, isAsciiDigit c = true) ∧ valueOf digits = n ∧
    (cs = digits ∨ cs = '+' :: digits)

/-- In base ten only the ASCII digits are digits: the letters have values from ten on. -/
theorem digitIn?_ten (c : Char) :
    digitIn? 10 c = if isAsciiDigit c = true then some (digitValue c) else none := by
  rw [digitIn?]
  by_cases hdigit : isAsciiDigit c = true
  · have hvalue : digitValue c < 10 := by
      rw [isAsciiDigit, between_iff] at hdigit
      simp only [Char.reduceToNat] at hdigit
      rw [digitValue]
      simp only [Char.reduceToNat]
      omega
    simp only [if_pos hdigit, Option.filter_some, hvalue, decide_true, if_true]
  · simp only [if_neg hdigit]
    split
    next hsmall =>
      rw [between_iff] at hsmall
      simp only [Char.reduceToNat] at hsmall
      rw [Option.filter_some, if_neg (by simp; omega)]
    next =>
      split
      next hcapital =>
        rw [between_iff] at hcapital
        simp only [Char.reduceToNat] at hcapital
        rw [Option.filter_some, if_neg (by simp; omega)]
      next => rfl

/-- Digits behind others add to the value that was read. -/
theorem readDigits_eq_some_iff {value : Nat} :
    readDigits 10 value cs = some n ↔ (∀ c ∈ cs, isAsciiDigit c = true) ∧
      cs.foldl (fun value c => value * 10 + digitValue c) value = n := by
  induction cs generalizing value with
  | nil => simp [readDigits]
  | cons c cs ih =>
    rw [readDigits, digitIn?_ten, List.forall_mem_cons, List.foldl_cons]
    by_cases hdigit : isAsciiDigit c = true
    · rw [if_pos hdigit, Option.bind_some, ih, and_iff_right hdigit]
    · rw [if_neg hdigit, Option.bind_none]
      exact iff_of_false (Option.some_ne_none n).symm fun h => hdigit h.1.1

theorem digits?_eq_some_iff :
    digits? 10 cs = some n ↔
      cs ≠ [] ∧ (∀ c ∈ cs, isAsciiDigit c = true) ∧ valueOf cs = n := by
  cases cs with
  | nil => exact iff_of_false (Option.some_ne_none n).symm fun h => h.1 rfl
  | cons c cs =>
    rw [digits?, readDigits_eq_some_iff, valueOf]
    · exact (and_iff_right (List.cons_ne_nil c cs)).symm
    · exact List.cons_ne_nil c cs

/-- A row of digits does not begin with a plus sign. -/
theorem ne_plus_cons_of_digits (hdigits : ∀ c ∈ digits, isAsciiDigit c = true) :
    ∀ rest, digits ≠ '+' :: rest := by
  rintro rest rfl
  exact absurd (hdigits '+' List.mem_cons_self) (by decide)

/-- **What is read as a natural number** below a bound. -/
theorem below?_eq_some_iff : below? bound cs = some n ↔ IsNatural cs n ∧ n < bound := by
  rw [below?.eq_def, Option.filter_eq_some_iff, decide_eq_true_eq]
  refine and_congr_left fun _ => ?_
  split
  next rest =>
    rw [digits?_eq_some_iff]
    constructor
    · rintro ⟨hne, hdigits, hvalue⟩
      exact ⟨rest, hne, hdigits, hvalue, Or.inr rfl⟩
    · rintro ⟨digits, hne, hdigits, hvalue, heq | heq⟩
      · exact absurd heq.symm (ne_plus_cons_of_digits hdigits rest)
      · rw [(List.cons.inj heq).2]
        exact ⟨hne, hdigits, hvalue⟩
  next hplus =>
    rw [digits?_eq_some_iff]
    constructor
    · rintro ⟨hne, hdigits, hvalue⟩
      exact ⟨cs, hne, hdigits, hvalue, Or.inl rfl⟩
    · rintro ⟨digits, hne, hdigits, hvalue, rfl | heq⟩
      · exact ⟨hne, hdigits, hvalue⟩
      · exact absurd heq (hplus digits)

/-- A text spells one number at most. -/
theorem IsNatural.unique {m : Nat} (hm : IsNatural cs m) (hn : IsNatural cs n) : m = n := by
  have hread := below?_eq_some_iff.mpr ⟨hm, Nat.lt_succ_of_le (Nat.le_max_left m n)⟩
  have hother := below?_eq_some_iff.mpr ⟨hn, Nat.lt_succ_of_le (Nat.le_max_right m n)⟩
  exact Option.some.inj (hread.symm.trans hother)

/-- The decimal text of a number spells it. -/
theorem isNatural_toString (n : Nat) : IsNatural (toString n).toList n := by
  rw [Nat.toString_eq_ofList_toDigits, String.toList_ofList]
  refine ⟨Nat.toDigits 10 n, ?_, fun c hc => isAsciiDigit_of_mem_toDigits hc,
    valueOf_toDigits n, Or.inl rfl⟩
  exact List.ne_nil_of_length_pos Nat.length_toDigits_pos

end ApiScribe.Numeral
