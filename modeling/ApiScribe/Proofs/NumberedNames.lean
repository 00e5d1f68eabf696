import ApiScribe.Proofs.CaseMappings
import ApiScribe.Proofs.FreshNames
import Mathlib.Data.List.DropRight

/-!
# Numbered names and letter case

Names are asked for one after the other, and a name that is taken gets a number.  As long as no name
that is asked for ends in a digit (`EndsOpen`), a number tells apart what it is put behind: two
candidates are the same only if the names and the numbers are (`candidate_eq_iff`).  So a name gets
the number of times that it was asked for before (`fresh_numbered`), whatever else was asked for,
and the first who asks gets the name as it is.

All this is about names as they are written.  Names are `Alike` when only the case of their ASCII
letters tells them apart, and numbers are then of no help: candidates for names that are alike are
alike when they have the same number (`alike_candidate_iff`).
-/

namespace ApiScribe

open Text

namespace Text

/-! ## ASCII letter case -/

/-- A character that changes its case is no digit, before and after. -/
theorem isDigit_asciiLower (c : Char) : (asciiLower c).isDigit = c.isDigit := by
  have hdigit : ∀ d : Char, d.isDigit = true ↔ 48 ≤ d.toNat ∧ d.toNat ≤ 57 := between_iff '0' '9'
  by_cases hcapital : 65 ≤ c.toNat ∧ c.toNat ≤ 90
  · have hsmall : 97 ≤ (asciiLower c).toNat := by
      rcases asciiLower_eq c with ⟨-, hno⟩ | ⟨hsmall, -⟩
      · exact absurd hcapital hno
      · exact hsmall
    rw [Bool.eq_iff_iff, hdigit, hdigit]
    omega
  · have hkept : asciiLower c = c := if_neg fun h => hcapital ((between_iff 'A' 'Z' c).mp h)
    rw [hkept]

theorem asciiLowerText_append (front back : List Char) :
    asciiLowerText (front ++ back) = asciiLowerText front ++ asciiLowerText back :=
  List.map_append

end Text

namespace Naming

/-- The names differ in nothing but the case of their ASCII letters. -/
def Alike (first second : String) : Prop :=
  asciiLowerText first.toList = asciiLowerText second.toList

instance (first second : String) : Decidable (Alike first second) :=
  inferInstanceAs (Decidable (_ = _))

theorem Alike.symm {first second : String} (h : Alike first second) : Alike second first :=
  Eq.symm h

/-- The names are told apart even where case does not count. -/
def Apart (first second : String) : Prop :=
  ¬ Alike first second

instance : Std.Symm Apart :=
  ⟨fun _ _ h halike => h halike.symm⟩

/-- What stands behind both names does not matter. -/
theorem alike_append_iff {first second : String} (ending : String) :
    Alike (first ++ ending) (second ++ ending) ↔ Alike first second := by
  rw [Alike, Alike, String.toList_append, String.toList_append, asciiLowerText_append,
    asciiLowerText_append, List.append_left_inj]

/-! ## Candidates for names without a digit at the end -/

/-- The text does not end in a digit. -/
def EndsOpen (cs : List Char) : Prop :=
  ∀ c ∈ cs.getLast?, c.isDigit = false

theorem EndsOpen.asciiLowerText {cs : List Char} (h : EndsOpen cs) :
    EndsOpen (asciiLowerText cs) := by
  unfold EndsOpen Text.asciiLowerText
  rw [List.getLast?_map]
  rintro _ hc
  obtain ⟨c, hlast, rfl⟩ := Option.map_eq_some_iff.mp hc
  rw [isDigit_asciiLower]
  exact h c hlast

/-- The digits behind a candidate. -/
def numberChars : Nat → List Char
  | 0 => []
  | number + 1 => (toString (number + 2)).toList

theorem toList_candidate (base : String) (number : Nat) :
    (candidate base number).toList = base.toList ++ numberChars number := by
  cases number with
  | zero => exact (List.append_nil _).symm
  | succ number => exact String.toList_append

theorem isDigit_of_mem_numberChars {number : Nat} {c : Char} (h : c ∈ numberChars number) :
    c.isDigit = true := by
  cases number with
  | zero => cases h
  | succ number =>
    rw [numberChars, Nat.toString_eq_ofList_toDigits, String.toList_ofList] at h
    exact Nat.isDigit_of_mem_toDigits (by decide) (by decide) h

theorem numberChars_injective : Function.Injective numberChars := by
  intro i j h
  refine candidate_injective "" (String.toList_injective ?_)
  rw [toList_candidate, toList_candidate, h]

/-- Digits have no case. -/
theorem asciiLowerText_numberChars (number : Nat) :
    asciiLowerText (numberChars number) = numberChars number := by
  have hkept : ∀ c ∈ numberChars number, asciiLower c = c := by
    refine fun c hc => if_neg fun hcapital => ?_
    have hdigit := (between_iff '0' '9' c).mp (isDigit_of_mem_numberChars hc)
    have hcapital := (between_iff 'A' 'Z' c).mp hcapital
    simp only [Char.reduceToNat] at hdigit hcapital
    omega
  exact (List.map_congr_left hkept).trans (List.map_id _)

/-- The numbers of candidates can be taken away again. -/
theorem rdropWhile_append_numberChars {cs : List Char} (h : EndsOpen cs) (number : Nat) :
    (cs ++ numberChars number).rdropWhile Char.isDigit = cs := by
  have hdigits : ∀ c ∈ (numberChars number).reverse, c.isDigit = true :=
    fun c hc => isDigit_of_mem_numberChars (List.mem_reverse.mp hc)
  rw [List.rdropWhile, List.reverse_append, List.dropWhile_append_of_pos hdigits,
    ← List.rdropWhile, List.rdropWhile_eq_self_iff]
  intro hne
  rw [h _ (List.getLast?_eq_getLast_of_ne_nil hne)]
  exact Bool.false_ne_true

theorem append_numberChars_inj {front back : List Char} (hfront : EndsOpen front)
    (hback : EndsOpen back) {i j : Nat} :
    front ++ numberChars i = back ++ numberChars j ↔ front = back ∧ i = j := by
  constructor
  · intro h
    have heq : front = back := by
      rw [← rdropWhile_append_numberChars hfront i, h, rdropWhile_append_numberChars hback j]
    subst heq
    exact ⟨rfl, numberChars_injective (List.append_cancel_left h)⟩
  · rintro ⟨rfl, rfl⟩
    rfl

section Candidates

variable {first second : String} (hfirst : EndsOpen first.toList)
  (hsecond : EndsOpen second.toList) {i j : Nat}

include hfirst hsecond

/-- **Candidates are the same** only if the names and the numbers are. -/
theorem candidate_eq_iff : candidate first i = candidate second j ↔ first = second ∧ i = j := by
  rw [← String.toList_inj, toList_candidate, toList_candidate,
    append_numberChars_inj hfirst hsecond, String.toList_inj]

/-- **Candidates are alike** only if the names are, and the numbers are the same. -/
theorem alike_candidate_iff :
    Alike (candidate first i) (candidate second j) ↔ Alike first second ∧ i = j := by
  rw [Alike, toList_candidate, toList_candidate, asciiLowerText_append, asciiLowerText_append,
    asciiLowerText_numberChars, asciiLowerText_numberChars,
    append_numberChars_inj hfirst.asciiLowerText hsecond.asciiLowerText]
  exact Iff.rfl

end Candidates

/-! ## Names that are asked for one after the other -/

/-- The names that are handed out when some were asked for before: each gets the number of times
that it was asked for already. -/
def numberedAfter (earlier : List String) : List String → List String
  | [] => []
  | name :: rest =>
    candidate name (earlier.count name) :: numberedAfter (earlier ++ [name]) rest

/-- The names that are handed out. -/
def numbered (names : List String) : List String :=
  numberedAfter [] names

theorem numberedAfter_append (earlier front back : List String) :
    numberedAfter earlier (front ++ back) =
      numberedAfter earlier front ++ numberedAfter (earlier ++ front) back := by
  induction front generalizing earlier with
  | nil => simp [numberedAfter]
  | cons name front ih => simp [numberedAfter, ih]

/-- What is handed out last. -/
theorem numbered_concat (names : List String) (name : String) :
    numbered (names ++ [name]) = numbered names ++ [candidate name (names.count name)] := by
  rw [numbered, numberedAfter_append, List.nil_append]
  rfl

section Numbered

variable {names : List String} (hnames : ∀ name ∈ names, EndsOpen name.toList) {base : String}
  (hbase : EndsOpen base.toList)

include hnames hbase

/-- **The candidates for a name that were handed out** are as many as it was asked for. -/
theorem candidate_mem_numbered_iff {number : Nat} :
    candidate base number ∈ numbered names ↔ number < names.count base := by
  induction names using List.reverseRecOn with
  | nil => simp [numbered, numberedAfter]
  | append_singleton names name ih =>
    obtain ⟨hnames, hname⟩ := List.forall_mem_append.mp hnames
    have hname := hname name (List.mem_singleton_self name)
    rw [numbered_concat, List.mem_append, List.mem_singleton, ih hnames, List.count_append,
      candidate_eq_iff hbase hname]
    by_cases heq : base = name
    · subst heq
      simp
      omega
    · have hcount : [name].count base = 0 := List.count_eq_zero.mpr (by simpa using heq)
      simp [heq, hcount]

/-- **A name gets the number of times that it was asked for before.** -/
theorem fresh_numbered : fresh (numbered names) base = candidate base (names.count base) := by
  obtain ⟨number, -, hfresh, hfree, hblocked⟩ := exists_number_fresh (numbered names) base
  rw [candidate_mem_numbered_iff hnames hbase] at hfree
  have hle : number ≤ names.count base := by
    by_contra hlt
    have hlast := hblocked (names.count base) (by omega)
    rw [candidate_mem_numbered_iff hnames hbase] at hlast
    omega
  rw [hfresh, show number = names.count base by omega]

end Numbered

/-- The first who asks for a name gets it as it is. -/
theorem mem_numbered {names : List String} (hnames : ∀ name ∈ names, EndsOpen name.toList)
    {name : String} (h : name ∈ names) : name ∈ numbered names := by
  have hcount : 0 < names.count name := List.count_pos_iff.mpr h
  exact (candidate_mem_numbered_iff hnames (hnames name h)).mpr hcount

end Naming

end ApiScribe
