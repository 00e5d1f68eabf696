import ApiScribe.Naming.Case
import Mathlib.Data.List.Basic

/-!
# What the case mappings yield

The names of a program are put together from the words of arbitrary text, and on the way letters
change their case by tables that cover all scripts.  Which characters come out is settled by the
tables alone: the image of a character outside ASCII is again outside ASCII, or it is a letter of
ASCII of the case that was asked for (`of_mem_upper`, `of_mem_lower`).  The long s, for example, has
the capital S, and no character of any script is mapped to a slash.

So words stay what they were: `IsWordChar` holds of all characters of a name in Pascal case
(`Naming.isWordChar_of_mem_pascalChars`).
-/

namespace ApiScribe

namespace Text

/-! ## Words -/

/-- Letters and digits of ASCII, and whatever is outside ASCII. -/
def IsWordChar (c : Char) : Prop :=
  isAsciiLetter c = true ∨ isAsciiDigit c = true ∨ 128 ≤ c.toNat

instance (c : Char) : Decidable (IsWordChar c) :=
  inferInstanceAs (Decidable (_ ∨ _ ∨ _))

theorem isWordChar_of_isAlphanumeric {c : Char} (h : isAlphanumeric c = true) : IsWordChar c := by
  rw [isAlphanumeric, isAlphabetic, isNumeric] at h
  by_cases hascii : c.toNat < 128
  · rw [if_pos hascii, if_pos hascii, Bool.or_eq_true] at h
    exact h.imp_right Or.inl
  · exact Or.inr (Or.inr (Nat.le_of_not_lt hascii))

/-- The characters between two of ASCII are those with the numbers between theirs. -/
theorem between_iff (low high c : Char) :
    (decide (low ≤ c) && decide (c ≤ high)) = true ↔
      low.toNat ≤ c.toNat ∧ c.toNat ≤ high.toNat := by
  rw [Bool.and_eq_true, decide_eq_true_iff, decide_eq_true_iff]
  exact Iff.rfl

theorem pieces_eq_splitOnP (p : Char → Bool) (cs : List Char) : pieces p cs = cs.splitOnP p := by
  induction cs with
  | nil => rfl
  | cons c cs ih =>
    rw [pieces, ih, List.splitOnP_cons_eq_if_modifyHead]
    split
    · rfl
    · split
      next hnil => exact absurd hnil (List.splitOnP_ne_nil p cs)
      next heq => rw [heq, List.modifyHead_cons]

/-- A piece between separators has none. -/
theorem of_mem_pieces {p : Char → Bool} {cs piece : List Char} (h : piece ∈ pieces p cs) :
    ∀ c ∈ piece, p c = false := by
  induction cs generalizing piece with
  | nil =>
    rw [List.mem_singleton.mp h]
    exact fun _ hmem => absurd hmem List.not_mem_nil
  | cons first cs ih =>
    rw [pieces] at h
    split at h
    next =>
      rcases List.mem_cons.mp h with rfl | h
      · exact fun _ hmem => absurd hmem List.not_mem_nil
      · exact ih h
    next hfirst =>
      have hfirst := eq_false_of_ne_true hfirst
      split at h
      next hnil =>
        rw [pieces_eq_splitOnP] at hnil
        exact absurd hnil (List.splitOnP_ne_nil p cs)
      next head rest hpieces =>
        rw [hpieces] at ih
        rcases List.mem_cons.mp h with rfl | h
        · exact List.forall_mem_cons.mpr ⟨hfirst, ih List.mem_cons_self⟩
        · exact ih (List.mem_cons_of_mem _ h)

/-- A word is not empty, and has no separators. -/
theorem of_mem_words {p : Char → Bool} {cs word : List Char} (h : word ∈ words p cs) :
    word ≠ [] ∧ ∀ c ∈ word, p c = false := by
  obtain ⟨hmem, hword⟩ := List.mem_filter.mp h
  exact ⟨fun hnil => by simp [hnil] at hword, of_mem_pieces hmem⟩

/-- The words of a text, one behind the other, are what is left without the separators. -/
theorem flatten_words (p : Char → Bool) (cs : List Char) :
    (words p cs).flatten = cs.filter fun c => !p c := by
  have hpieces : (pieces p cs).flatten = cs.filter fun c => !p c := by
    induction cs with
    | nil => rfl
    | cons c cs ih =>
      rw [pieces]
      by_cases hc : p c = true
      · simp [hc, ih]
      · rw [if_neg hc]
        split
        next hnil =>
          rw [pieces_eq_splitOnP] at hnil
          exact absurd hnil (List.splitOnP_ne_nil p cs)
        next head rest heq =>
          rw [heq] at ih
          simp [hc, ← ih]
  rw [words, ← hpieces, List.flatten_filter_not_isEmpty]

/-! ## ASCII -/

theorem toNat_ofNat_of_isValidChar {n : Nat} (h : n.isValidChar) : (Char.ofNat n).toNat = n := by
  rw [Char.ofNat, dif_pos h]
  rfl

theorem asciiUpper_eq (c : Char) :
    asciiUpper c = c ∧ ¬(97 ≤ c.toNat ∧ c.toNat ≤ 122) ∨
      65 ≤ (asciiUpper c).toNat ∧ (asciiUpper c).toNat ≤ 90 := by
  rw [asciiUpper]
  split
  next hsmall =>
    obtain ⟨hlow, hhigh⟩ := (between_iff 'a' 'z' c).mp hsmall
    have himage : (Char.ofNat (c.toNat - 32)).toNat = c.toNat - 32 :=
      toNat_ofNat_of_isValidChar (Or.inl (by simp at hhigh; omega))
    rw [himage]
    simp only [Char.reduceToNat] at hlow hhigh
    omega
  next hkept => exact Or.inl ⟨rfl, fun hsmall => hkept ((between_iff 'a' 'z' c).mpr hsmall)⟩

theorem asciiLower_eq (c : Char) :
    asciiLower c = c ∧ ¬(65 ≤ c.toNat ∧ c.toNat ≤ 90) ∨
      97 ≤ (asciiLower c).toNat ∧ (asciiLower c).toNat ≤ 122 := by
  rw [asciiLower]
  split
  next hcapital =>
    obtain ⟨hlow, hhigh⟩ := (between_iff 'A' 'Z' c).mp hcapital
    have himage : (Char.ofNat (c.toNat + 32)).toNat = c.toNat + 32 :=
      toNat_ofNat_of_isValidChar (Or.inl (by simp at hhigh; omega))
    rw [himage]
    simp only [Char.reduceToNat] at hlow hhigh
    omega
  next hkept => exact Or.inl ⟨rfl, fun hcapital => hkept ((between_iff 'A' 'Z' c).mpr hcapital)⟩

/-! ## All scripts -/

/-- Are all images of the shift characters, and outside ASCII or between two bounds? -/
def Shift.lands (low high : Nat) (shift : Shift) : Bool :=
  let first := Int.toNat (shift.first + shift.distance)
  let last := Int.toNat (shift.last + shift.distance)
  (128 ≤ first || (low ≤ first && last ≤ high)) && last < 0xD800 ||
    0xE000 ≤ first && last < 0x110000

theorem Shift.isValidChar_of_lands {shift : Shift} {low high n : Nat}
    (hlands : shift.lands low high = true) (hholds : shift.holds n = true) :
    (Int.toNat (n + shift.distance)).isValidChar := by
  simp only [Shift.holds, Bool.and_eq_true, decide_eq_true_iff] at hholds
  simp only [Shift.lands, Bool.or_eq_true, Bool.and_eq_true, decide_eq_true_iff] at hlands
  obtain ⟨⟨hfirst, hlast⟩, -⟩ := hholds
  rw [Nat.isValidChar]
  omega

/-- Where the shifts of a table land, there the images of all characters are that it moves. -/
theorem shiftBy_eq {shifts : List Shift} {low high : Nat}
    (h : shifts.all (Shift.lands low high) = true) (c : Char) :
    shiftBy shifts c = c ∨ (low ≤ (shiftBy shifts c).toNat ∧ (shiftBy shifts c).toNat ≤ high) ∨
      128 ≤ (shiftBy shifts c).toNat := by
  rw [shiftBy]
  split
  next shift hfound =>
    have hlands := List.all_eq_true.mp h shift (List.mem_of_find?_eq_some hfound)
    have hholds := List.find?_some hfound
    rw [toNat_ofNat_of_isValidChar (Shift.isValidChar_of_lands hlands hholds)]
    simp only [Shift.holds, Bool.and_eq_true, decide_eq_true_iff] at hholds
    simp only [Shift.lands, Bool.or_eq_true, Bool.and_eq_true, decide_eq_true_iff] at hlands
    obtain ⟨⟨hfirst, hlast⟩, -⟩ := hholds
    omega
  next => exact Or.inl rfl

theorem capitalShifts_land : capitalShifts.all (Shift.lands 65 90) = true := by
  decide +kernel

theorem smallShifts_land : smallShifts.all (Shift.lands 97 122) = true := by
  decide +kernel

/-- The expansions are made of capitals of ASCII and of characters outside ASCII. -/
theorem capitalExpansions_land : capitalExpansions.all (fun expansion =>
    expansion.2.all fun n => (65 ≤ n && n ≤ 90 || 128 ≤ n) && n < 0xD800) = true := by
  decide +kernel

theorem mem_of_lookup_capitalExpansions {n : Nat} {expansion : List Nat}
    (h : capitalExpansions.lookup n = some expansion) : (n, expansion) ∈ capitalExpansions := by
  obtain ⟨before, after, heq, -⟩ := List.lookup_eq_some_iff.mp h
  rw [heq]
  exact List.mem_append_right _ List.mem_cons_self

variable {c d : Char}

/-- **What capitals are**: a character that was no small letter of ASCII, a capital of ASCII, or a
character outside ASCII. -/
theorem of_mem_upper (h : d ∈ upper c) :
    d = c ∧ ¬(97 ≤ d.toNat ∧ d.toNat ≤ 122) ∨ (65 ≤ d.toNat ∧ d.toNat ≤ 90) ∨
      128 ≤ d.toNat := by
  rw [upper] at h
  split at h
  next =>
    rw [List.mem_singleton.mp h]
    rcases asciiUpper_eq c with ⟨heq, hsmall⟩ | hcapital
    · exact Or.inl ⟨heq, heq.symm ▸ hsmall⟩
    · exact Or.inr (Or.inl hcapital)
  next hascii =>
    split at h
    next expansion hexpansion =>
      obtain ⟨n, hn, rfl⟩ := List.mem_map.mp h
      have hland := List.all_eq_true.mp (List.all_eq_true.mp capitalExpansions_land _
        (mem_of_lookup_capitalExpansions hexpansion)) n hn
      simp only [Bool.or_eq_true, Bool.and_eq_true, decide_eq_true_iff] at hland
      rw [toNat_ofNat_of_isValidChar (Or.inl hland.2)]
      exact Or.inr hland.1
    next =>
      rw [List.mem_singleton.mp h]
      rcases shiftBy_eq capitalShifts_land c with heq | hland
      · refine Or.inr (Or.inr ?_)
        rw [heq]
        exact Nat.le_of_not_lt hascii
      · exact Or.inr hland

/-- **What small letters are**: a character that was no capital of ASCII, a small letter of ASCII, or
a character outside ASCII. -/
theorem of_mem_lower (h : d ∈ lower c) :
    d = c ∧ ¬(65 ≤ d.toNat ∧ d.toNat ≤ 90) ∨ (97 ≤ d.toNat ∧ d.toNat ≤ 122) ∨
      128 ≤ d.toNat := by
  rw [lower] at h
  split at h
  next =>
    rw [List.mem_singleton.mp h]
    rcases asciiLower_eq c with ⟨heq, hcapital⟩ | hsmall
    · exact Or.inl ⟨heq, heq.symm ▸ hcapital⟩
    · exact Or.inr (Or.inl hsmall)
  next hascii =>
    split at h
    next =>
      rcases List.mem_cons.mp h with rfl | h
      · exact Or.inr (Or.inl (by decide))
      · rw [List.mem_singleton.mp h]
        exact Or.inr (Or.inr (by decide))
    next =>
      rw [List.mem_singleton.mp h]
      rcases shiftBy_eq smallShifts_land c with heq | hland
      · refine Or.inr (Or.inr ?_)
        rw [heq]
        exact Nat.le_of_not_lt hascii
      · exact Or.inr hland

/-! ## Words stay words -/

theorem isWordChar_of_between (h : (65 ≤ c.toNat ∧ c.toNat ≤ 90) ∨ (97 ≤ c.toNat ∧ c.toNat ≤ 122)) :
    IsWordChar c := by
  refine Or.inl (Bool.or_eq_true_iff.mpr ?_)
  rw [between_iff, between_iff]
  exact h.symm

theorem IsWordChar.upper (hc : IsWordChar c) (h : d ∈ upper c) : IsWordChar d := by
  rcases of_mem_upper h with ⟨rfl, -⟩ | hcapital | hother
  · exact hc
  · exact isWordChar_of_between (Or.inl hcapital)
  · exact Or.inr (Or.inr hother)

theorem IsWordChar.lower (hc : IsWordChar c) (h : d ∈ lower c) : IsWordChar d := by
  rcases of_mem_lower h with ⟨rfl, -⟩ | hsmall | hother
  · exact hc
  · exact isWordChar_of_between (Or.inr hsmall)
  · exact Or.inr (Or.inr hother)

theorem isWordChar_of_mem_lowerText {cs : List Char} (hcs : ∀ c ∈ cs, IsWordChar c)
    (h : d ∈ lowerText cs) : IsWordChar d := by
  rw [lowerText] at h
  generalize ([] : List Char) = before at h
  induction cs generalizing before with
  | nil => cases h
  | cons c cs ih =>
    obtain ⟨hc, hcs⟩ := List.forall_mem_cons.mp hcs
    rw [lowerAfter] at h
    split at h
    · rcases List.mem_cons.mp h with rfl | h
      · refine Or.inr (Or.inr ?_)
        split <;> decide
      · exact ih hcs _ h
    · rcases List.mem_append.mp h with h | h
      · exact hc.lower h
      · exact ih hcs _ h

end Text

namespace Naming

open Text

theorem isWordChar_of_mem_pascalWord {word : List Char} (hword : ∀ c ∈ word, IsWordChar c)
    {d : Char} (h : d ∈ pascalWord word) : IsWordChar d := by
  cases word with
  | nil => cases h
  | cons c cs =>
    obtain ⟨hc, hcs⟩ := List.forall_mem_cons.mp hword
    rw [pascalWord] at h
    rcases List.mem_append.mp h with h | h
    · exact hc.upper h
    · split at h
      · exact isWordChar_of_mem_lowerText hcs h
      · exact hcs d h

/-- **A name in Pascal case is one word**, whatever it was made from. -/
theorem isWordChar_of_mem_pascalChars {cs : List Char} {d : Char} (h : d ∈ pascalChars cs) :
    IsWordChar d := by
  obtain ⟨word, hword, h⟩ := List.mem_flatMap.mp h
  refine isWordChar_of_mem_pascalWord (fun c hc => ?_) h
  have hgap := (of_mem_words hword).2 c hc
  exact isWordChar_of_isAlphanumeric (by simpa [isGap] using hgap)

end Naming

end ApiScribe
