import ApiScribe.Proofs.CaseMappings

/-!
# Identifiers

What counts as an identifier depends on the version of Unicode outside ASCII and on nothing within, so
an `IdentifierAlphabet` is any choice for the characters outside.  A name is accepted if it is an
identifier and no reserved word.
-/

namespace ApiScribe

open Text

/-- The characters that identifiers begin with and consist of.  Those of ASCII are fixed; for the
others it depends on the version of Unicode. -/
structure IdentifierAlphabet where
  isStart : Char → Bool
  isPart : Char → Bool
  isPart_of_isStart : ∀ c, isStart c = true → isPart c = true
  isStart_ascii : ∀ c, c.toNat < 128 → isStart c = (isAsciiLetter c || Naming.isMark c)
  isPart_ascii : ∀ c, c.toNat < 128 →
    isPart c = (isAsciiLetter c || isAsciiDigit c || Naming.isMark c)

/-- The name is an identifier and no reserved word. -/
structure IdentifierAlphabet.Accepts (alphabet : IdentifierAlphabet) (name : String) : Prop where
  start : ∃ c ∈ name.toList.head?, alphabet.isStart c = true
  part : ∀ c ∈ name.toList, alphabet.isPart c = true
  notReserved : Naming.isReserved name = false

/-- The alphabet that has nothing outside ASCII. -/
def asciiAlphabet : IdentifierAlphabet where
  isStart c := isAsciiLetter c || Naming.isMark c
  isPart c := isAsciiLetter c || isAsciiDigit c || Naming.isMark c
  isPart_of_isStart c h := by
    rw [Bool.or_right_comm, h, Bool.true_or]
  isStart_ascii _ _ := rfl
  isPart_ascii _ _ := rfl

variable {c : Char}

theorem toNat_lt_of_isAsciiLetter (h : isAsciiLetter c = true) : c.toNat < 128 := by
  rw [isAsciiLetter, Bool.or_eq_true, between_iff, between_iff] at h
  simp only [Char.reduceToNat] at h
  omega

theorem toNat_lt_of_isAsciiDigit (h : isAsciiDigit c = true) : c.toNat < 128 := by
  rw [isAsciiDigit, between_iff] at h
  simp only [Char.reduceToNat] at h
  omega

/-- A digit begins no identifier. -/
theorem IdentifierAlphabet.isStart_eq_false_of_isAsciiDigit (alphabet : IdentifierAlphabet)
    (h : isAsciiDigit c = true) : alphabet.isStart c = false := by
  have hascii := toNat_lt_of_isAsciiDigit h
  rw [alphabet.isStart_ascii c hascii, ← Bool.not_eq_true, Bool.or_eq_true, not_or]
  rw [isAsciiDigit, between_iff] at h
  simp only [Char.reduceToNat] at h
  constructor
  · rw [isAsciiLetter, Bool.or_eq_true, between_iff, between_iff]
    simp only [Char.reduceToNat]
    omega
  · intro hmark
    rw [Naming.isMark, Bool.or_eq_true, decide_eq_true_iff, decide_eq_true_iff] at hmark
    rcases hmark with rfl | rfl <;> exact absurd h (by decide)

theorem IdentifierAlphabet.isPart_of_isAsciiLetter (alphabet : IdentifierAlphabet)
    (h : isAsciiLetter c = true) : alphabet.isPart c = true := by
  rw [alphabet.isPart_ascii c (toNat_lt_of_isAsciiLetter h), h]
  rfl

theorem IdentifierAlphabet.isPart_of_isAsciiDigit (alphabet : IdentifierAlphabet)
    (h : isAsciiDigit c = true) : alphabet.isPart c = true := by
  rw [alphabet.isPart_ascii c (toNat_lt_of_isAsciiDigit h), h, Bool.or_true]
  rfl

theorem IdentifierAlphabet.isStart_of_isAsciiLetter (alphabet : IdentifierAlphabet)
    (h : isAsciiLetter c = true) : alphabet.isStart c = true := by
  rw [alphabet.isStart_ascii c (toNat_lt_of_isAsciiLetter h), h]
  rfl

end ApiScribe
