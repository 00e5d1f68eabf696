import ApiScribe.Proofs.CaseMappings

/-!
# Letters stay letters, and numbers numbers

A change of case makes letters of letters in every script, and leaves alone what has no case.  It
may make several characters of one, but the first of them tells whether there was a letter or a
number: `exists_head_upper` and `exists_head_lower` say so, by a look at the tables.  (Some
characters are both, like the Roman numerals `ⅷ` and `Ⅷ`, and stay both.)

The tables of letters and numbers are ranges, and those of case mappings are runs of characters, so
a run is looked at as a whole: its images lie in one of the ranges of letters (`covers`), and every
range of numbers contains the run and its images or is away from both (`keepsNumbers`).
-/

namespace ApiScribe.Text

/-! ## Ranges -/

/-- The ranges of letters, those of ASCII in front. -/
def letterRanges : List (Nat × Nat) :=
  (65, 90) :: (97, 122) :: alphabeticRanges

/-- The ranges of digits and other numbers, those of ASCII in front. -/
def numberRanges : List (Nat × Nat) :=
  (48, 57) :: numericRanges

/-- Does one of the ranges contain all numbers between two? -/
def covers (ranges : List (Nat × Nat)) (first last : Nat) : Bool :=
  ranges.any fun range => range.1.ble first && last.ble range.2

theorem inRanges_of_covers {ranges : List (Nat × Nat)} {first last n : Nat}
    (h : covers ranges first last = true) (hlow : first ≤ n) (hhigh : n ≤ last) :
    inRanges ranges n = true := by
  obtain ⟨range, hrange, hcovers⟩ := List.any_eq_true.mp h
  rw [Bool.and_eq_true, Nat.ble_eq, Nat.ble_eq] at hcovers
  refine List.any_eq_true.mpr ⟨range, hrange, ?_⟩
  rw [Bool.and_eq_true, decide_eq_true_iff, decide_eq_true_iff]
  omega

/-- The tables begin behind ASCII. -/
theorem tables_behind_ascii :
    (alphabeticRanges.all fun range => Nat.ble 128 range.1) = true ∧
      (numericRanges.all fun range => Nat.ble 128 range.1) = true := by
  decide +kernel

theorem inRanges_eq_false_of_lt {ranges : List (Nat × Nat)} {n : Nat}
    (h : (ranges.all fun range => Nat.ble 128 range.1) = true) (hn : n < 128) :
    inRanges ranges n = false := by
  refine List.any_eq_false.mpr fun range hrange => ?_
  have hlow := Nat.le_of_ble_eq_true (List.all_eq_true.mp h range hrange)
  rw [Bool.and_eq_true, decide_eq_true_iff, decide_eq_true_iff]
  omega

variable {c d : Char}

theorem isAlphabetic_iff : isAlphabetic c = true ↔ inRanges letterRanges c.toNat = true := by
  have hcons : inRanges letterRanges c.toNat = true ↔
      (65 ≤ c.toNat ∧ c.toNat ≤ 90 ∨ 97 ≤ c.toNat ∧ c.toNat ≤ 122) ∨
        inRanges alphabeticRanges c.toNat = true := by
    simp [inRanges, letterRanges, or_assoc]
  rw [hcons, isAlphabetic]
  split
  next hascii =>
    rw [inRanges_eq_false_of_lt tables_behind_ascii.1 hascii, isAsciiLetter, Bool.or_eq_true,
      between_iff, between_iff]
    simp [or_comm]
  next hascii =>
    refine (or_iff_right fun h => ?_).symm
    omega

theorem isNumeric_iff : isNumeric c = true ↔ inRanges numberRanges c.toNat = true := by
  have hcons : inRanges numberRanges c.toNat = true ↔
      (48 ≤ c.toNat ∧ c.toNat ≤ 57) ∨ inRanges numericRanges c.toNat = true := by
    simp [inRanges, numberRanges]
  rw [hcons, isNumeric]
  split
  next hascii =>
    rw [inRanges_eq_false_of_lt tables_behind_ascii.2 hascii, isAsciiDigit, between_iff]
    simp
  next hascii =>
    refine (or_iff_right fun h => ?_).symm
    omega

/-! ## Tables -/

/-- The image is a letter, and a number exactly if what it is an image of is. -/
def KeepsClass (n image : Nat) : Prop :=
  inRanges letterRanges image = true ∧ inRanges numberRanges image = inRanges numberRanges n

/-- Are all images of the shift letters? -/
def Shift.makesLetters (shift : Shift) : Bool :=
  let first := Int.toNat (shift.first + shift.distance)
  let last := Int.toNat (shift.last + shift.distance)
  covers letterRanges first last ||
    (List.range ((shift.last - shift.first) / shift.step + 1)).all fun k =>
      inRanges letterRanges (first + shift.step * k)

/-- Does every range of numbers contain the run and its images, or neither? -/
def Shift.keepsNumbers (shift : Shift) : Bool :=
  let first := Int.toNat (shift.first + shift.distance)
  let last := Int.toNat (shift.last + shift.distance)
  numberRanges.all fun range =>
    (shift.last.blt range.1 || range.2.blt shift.first) &&
        (last.blt range.1 || range.2.blt first) ||
      (range.1.ble shift.first && shift.last.ble range.2) &&
        (range.1.ble first && last.ble range.2)

/-- Is the shift one from letters to letters, or from numbers that are letters to such numbers? -/
def Shift.keepsClass (shift : Shift) : Bool :=
  decide (0 ≤ shift.first + shift.distance) && shift.makesLetters && shift.keepsNumbers

theorem Shift.keepsClass_of_holds {shift : Shift} {n : Nat} (h : shift.keepsClass = true)
    (hholds : shift.holds n = true) : KeepsClass n (Int.toNat (n + shift.distance)) := by
  simp only [Shift.keepsClass, Bool.and_eq_true, decide_eq_true_iff] at h
  simp only [Shift.holds, Bool.and_eq_true, decide_eq_true_iff, beq_iff_eq] at hholds
  obtain ⟨⟨hpositive, hletters⟩, hnumbers⟩ := h
  obtain ⟨⟨hfirst, hlast⟩, hstep⟩ := hholds
  constructor
  · simp only [Shift.makesLetters, Bool.or_eq_true] at hletters
    rcases hletters with hcovers | hall
    · exact inRanges_of_covers hcovers (by omega) (by omega)
    · have hle : (n - shift.first) / shift.step ≤ (shift.last - shift.first) / shift.step :=
        Nat.div_le_div_right (by omega)
      have hn := Nat.div_add_mod (n - shift.first) shift.step
      rw [hstep] at hn
      have himage := List.all_eq_true.mp hall _ (List.mem_range.mpr (Nat.lt_succ_of_le hle))
      rwa [show Int.toNat (shift.first + shift.distance) +
        shift.step * ((n - shift.first) / shift.step) = Int.toNat (n + shift.distance) by omega]
        at himage
  · rw [Bool.eq_iff_iff, inRanges, inRanges, List.any_eq_true, List.any_eq_true]
    refine exists_congr fun range => and_congr_right fun hrange => ?_
    have hside := List.all_eq_true.mp hnumbers range hrange
    simp only [Bool.or_eq_true, Bool.and_eq_true, Nat.blt_eq, Nat.ble_eq] at hside
    rw [Bool.and_eq_true, Bool.and_eq_true, decide_eq_true_iff, decide_eq_true_iff,
      decide_eq_true_iff, decide_eq_true_iff]
    omega

theorem capitalShifts_keepClass : capitalShifts.all Shift.keepsClass = true := by
  decide +kernel

theorem smallShifts_keepClass : smallShifts.all Shift.keepsClass = true := by
  decide +kernel

/-- The first character of an expansion is what a shift by its distance makes. -/
theorem capitalExpansions_keepClass : (capitalExpansions.all fun expansion =>
    match expansion.2 with
    | [] => false
    | image :: _ =>
      Shift.keepsClass ⟨expansion.1, expansion.1, 1, image - expansion.1⟩) = true := by
  decide +kernel

/-! ## First characters -/

/-- The second character is a number, or a digit of ASCII, exactly if the first is, and can stand in
a word if the first can. -/
structure SameClass (c d : Char) : Prop where
  isNumeric : isNumeric d = isNumeric c
  isAsciiDigit : isAsciiDigit d = isAsciiDigit c
  isAlphanumeric : isAlphanumeric c = true → isAlphanumeric d = true

@[refl] theorem SameClass.refl (c : Char) : SameClass c c :=
  ⟨rfl, rfl, id⟩

theorem SameClass.trans {e : Char} (h : SameClass c d) (h' : SameClass d e) : SameClass c e :=
  ⟨h'.isNumeric.trans h.isNumeric, h'.isAsciiDigit.trans h.isAsciiDigit,
    h'.isAlphanumeric ∘ h.isAlphanumeric⟩

theorem sameClass_of_isAlphabetic (hd : isAlphabetic d = true)
    (hnumeric : isNumeric d = isNumeric c) (hc : isAsciiDigit c = false) : SameClass c d := by
  refine ⟨hnumeric, ?_, fun _ => by rw [isAlphanumeric, hd, Bool.true_or]⟩
  rw [hc, ← Bool.not_eq_true]
  intro hdigit
  have hdigit := (between_iff '0' '9' d).mp hdigit
  simp only [Char.reduceToNat] at hdigit
  rw [isAlphabetic, if_pos (by omega), isAsciiLetter, Bool.or_eq_true, between_iff,
    between_iff] at hd
  simp only [Char.reduceToNat] at hd
  omega

/-- What a table keeps the class of has the same class. -/
theorem sameClass_of_keepsClass {n : Nat} (hvalid : n.isValidChar) (hascii : ¬ c.toNat < 128)
    (h : KeepsClass c.toNat n) : SameClass c (Char.ofNat n) := by
  have hn := toNat_ofNat_of_isValidChar hvalid
  refine sameClass_of_isAlphabetic ?_ ?_ ?_
  · rw [isAlphabetic_iff, hn]
    exact h.1
  · rw [Bool.eq_iff_iff, isNumeric_iff, isNumeric_iff, hn, h.2]
  · rw [← Bool.not_eq_true]
    intro hdigit
    have hdigit := (between_iff '0' '9' c).mp hdigit
    simp only [Char.reduceToNat] at hdigit
    omega

theorem sameClass_shiftBy {shifts : List Shift} {low high : Nat}
    (hlands : shifts.all (Shift.lands low high) = true) (h : shifts.all Shift.keepsClass = true)
    (hascii : ¬ c.toNat < 128) : SameClass c (shiftBy shifts c) := by
  rw [shiftBy]
  split
  next shift hfound =>
    have hmem := List.mem_of_find?_eq_some hfound
    have hholds := List.find?_some hfound
    exact sameClass_of_keepsClass
      (Shift.isValidChar_of_lands (List.all_eq_true.mp hlands shift hmem) hholds) hascii
      (Shift.keepsClass_of_holds (List.all_eq_true.mp h shift hmem) hholds)
  next => rfl

/-- Another case of a letter of ASCII is one. -/
theorem sameClass_ascii (hascii : c.toNat < 128) :
    SameClass c (asciiUpper c) ∧ SameClass c (asciiLower c) := by
  have hall : ((List.range 128).all fun n =>
      [asciiUpper (Char.ofNat n), asciiLower (Char.ofNat n)].all fun d =>
        d = Char.ofNat n ∨ isAlphabetic d = true ∧ isNumeric d = isNumeric (Char.ofNat n) ∧
          isAsciiDigit (Char.ofNat n) = false) = true := by
    decide +kernel
  have hboth : ∀ d ∈ [asciiUpper c, asciiLower c], SameClass c d := by
    intro d hd
    have hclass := List.all_eq_true.mp hall c.toNat (List.mem_range.mpr hascii)
    rw [Char.ofNat_toNat] at hclass
    rcases of_decide_eq_true (List.all_eq_true.mp hclass d hd) with
      rfl | ⟨halphabetic, hnumeric, hdigit⟩
    · rfl
    · exact sameClass_of_isAlphabetic halphabetic hnumeric hdigit
  exact ⟨hboth _ (by simp), hboth _ (by simp)⟩

/-- **The first character of a capital** is of the class of the letter. -/
theorem exists_head_upper (c : Char) : ∃ d rest, upper c = d :: rest ∧ SameClass c d := by
  rw [upper]
  split
  next hascii => exact ⟨_, [], rfl, (sameClass_ascii hascii).1⟩
  next hascii =>
    split
    next expansion hexpansion =>
      have hmem := mem_of_lookup_capitalExpansions hexpansion
      have hkeeps := List.all_eq_true.mp capitalExpansions_keepClass _ hmem
      have hland := List.all_eq_true.mp capitalExpansions_land _ hmem
      cases expansion with
      | nil => cases hkeeps
      | cons image rest =>
        have hholds : Shift.holds ⟨c.toNat, c.toNat, 1, image - c.toNat⟩ c.toNat = true := by
          simp [Shift.holds]
        have hclass := Shift.keepsClass_of_holds hkeeps hholds
        rw [show Int.toNat (c.toNat + ((image : Int) - c.toNat)) = image by omega] at hclass
        have hvalid : image.isValidChar := by
          have hfirst := List.all_eq_true.mp hland image List.mem_cons_self
          simp only [Bool.and_eq_true, decide_eq_true_iff] at hfirst
          exact Or.inl hfirst.2
        exact ⟨_, _, rfl, sameClass_of_keepsClass hvalid hascii hclass⟩
    next =>
      exact ⟨_, [], rfl, sameClass_shiftBy capitalShifts_land capitalShifts_keepClass hascii⟩

/-- **The first character of a small letter** is of the class of the letter. -/
theorem exists_head_lower (c : Char) : ∃ d rest, lower c = d :: rest ∧ SameClass c d := by
  rw [lower]
  split
  next hascii => exact ⟨_, [], rfl, (sameClass_ascii hascii).2⟩
  next hascii =>
    split
    next hdot =>
      obtain rfl : c = Char.ofNat 0x130 := by rw [← hdot, Char.ofNat_toNat]
      exact ⟨'i', _, rfl, sameClass_of_isAlphabetic rfl (by decide +kernel) (by decide)⟩
    next =>
      exact ⟨_, [], rfl, sameClass_shiftBy smallShifts_land smallShifts_keepClass hascii⟩

end ApiScribe.Text
