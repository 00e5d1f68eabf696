import ApiScribe.Naming.Fresh
import Mathlib.Data.List.Nodup

/-!
# Fresh names are free

The candidates for a name are pairwise distinct (`candidate_injective`), so of one candidate more
than there are blocked names, one is not blocked.  This is what makes the bound of the search in
`firstFree` harmless: `not_blocked_firstFree` says that the candidate found is free, and
`blocked_of_lt_firstFree` that every candidate passed over was not.
-/

namespace ApiScribe.Naming

/-! ## Candidates -/

/-- Two numbers that are written alike are the same. -/
theorem toString_nat_injective : Function.Injective (toString : Nat → String) := by
  intro i j h
  rw [Nat.toString_eq_ofList_toDigits, Nat.toString_eq_ofList_toDigits] at h
  rw [← Nat.ofDigitChars_ten_toDigits (n := i), String.ofList_injective h,
    Nat.ofDigitChars_ten_toDigits]

/-- A number is written with at least one digit. -/
theorem toString_nat_ne_empty (n : Nat) : toString n ≠ "" := by
  intro h
  have hlist := congrArg String.toList h
  rw [Nat.toString_eq_ofList_toDigits, String.toList_ofList] at hlist
  exact Nat.toDigits_ne_nil hlist

/-- No two candidates for a name are the same. -/
theorem candidate_injective (base : String) : Function.Injective (candidate base) := by
  have hne : ∀ k, candidate base (k + 1) ≠ base := by
    intro k h
    rw [candidate, String.append_eq_left_iff] at h
    exact toString_nat_ne_empty _ h
  intro i j h
  cases i with
  | zero =>
    cases j with
    | zero => rfl
    | succ j => exact absurd h.symm (hne j)
  | succ i =>
    cases j with
    | zero => exact absurd h (hne i)
    | succ j =>
      rw [candidate, candidate, String.append_right_inj] at h
      have hij := toString_nat_injective h
      omega

/-- A candidate is the name with digits behind it; there are none only if it is the name itself. -/
theorem exists_toList_candidate (base : String) (number : Nat) :
    ∃ digits : List Char, (candidate base number).toList = base.toList ++ digits ∧
      (∀ d ∈ digits, d.isDigit = true) ∧ (digits = [] → number = 0) := by
  cases number with
  | zero => exact ⟨[], (List.append_nil _).symm, nofun, fun _ => rfl⟩
  | succ k =>
    refine ⟨Nat.toDigits 10 (k + 2), ?_, fun d hd => ?_, fun hnil => ?_⟩
    · rw [candidate, String.toList_append, Nat.toString_eq_ofList_toDigits, String.toList_ofList]
    · exact Nat.isDigit_of_mem_toDigits (by decide) (by decide) hd
    · exact absurd hnil Nat.toDigits_ne_nil

/-- A candidate without digits is the name itself. -/
theorem eq_zero_of_forall_not_isDigit {base : String} {number : Nat}
    (h : ∀ c ∈ (candidate base number).toList, c.isDigit = false) : number = 0 := by
  obtain ⟨digits, heq, hdigits, hnil⟩ := exists_toList_candidate base number
  refine hnil (List.eq_nil_iff_forall_not_mem.mpr fun d hd => ?_)
  have hno := h d (by rw [heq]; exact List.mem_append_right _ hd)
  exact absurd (hdigits d hd) (ne_true_of_eq_false hno)

/-! ## The search -/

variable {blocked : String → Bool} {base : String}

/-- The candidates that the search passes over are blocked. -/
theorem blocked_of_lt_firstFree {bound k i : Nat} (hk : k ≤ i)
    (hi : i < firstFree blocked base bound k) : blocked (candidate base i) = true := by
  induction bound generalizing k with
  | zero =>
    rw [firstFree] at hi
    omega
  | succ bound ih =>
    rw [firstFree] at hi
    split at hi
    next h =>
      rcases Nat.eq_or_lt_of_le hk with rfl | hlt
      · exact h
      · exact ih hlt hi
    next => omega

/-- The search looks at no more candidates than its bound allows. -/
theorem firstFree_le (blocked : String → Bool) (base : String) (bound k : Nat) :
    firstFree blocked base bound k ≤ k + bound := by
  induction bound generalizing k with
  | zero => exact Nat.le_refl k
  | succ bound ih =>
    rw [firstFree]
    split
    · have hrest := ih (k + 1)
      omega
    · omega

/-- The search stops at a blocked candidate only when it has used up its bound. -/
theorem firstFree_eq_of_blocked {bound k : Nat}
    (h : blocked (candidate base (firstFree blocked base bound k)) = true) :
    firstFree blocked base bound k = k + bound := by
  induction bound generalizing k with
  | zero => rfl
  | succ bound ih =>
    rw [firstFree] at h ⊢
    split at h
    next hk =>
      rw [if_pos hk, ih h]
      omega
    next hk => exact absurd h hk

/-- **The candidate that is found is free**, if the blocked names are among a list that is not
longer than the bound: otherwise one candidate more than the list is long would be in it. -/
theorem not_blocked_firstFree {bound k : Nat} {names : List String}
    (hnames : ∀ name, blocked name = true → name ∈ names) (hbound : names.length ≤ bound) :
    blocked (candidate base (firstFree blocked base bound k)) = false := by
  by_contra hne
  have hlast := eq_true_of_ne_false hne
  have heq := firstFree_eq_of_blocked hlast
  have hall : (List.range' k (bound + 1)).map (candidate base) ⊆ names := by
    intro name hmem
    obtain ⟨i, hi, rfl⟩ := List.mem_map.mp hmem
    rw [List.mem_range'_1] at hi
    apply hnames
    by_cases hlt : i < firstFree blocked base bound k
    · exact blocked_of_lt_firstFree hi.1 hlt
    · rw [show i = firstFree blocked base bound k by omega]
      exact hlast
  have hnodup : ((List.range' k (bound + 1)).map (candidate base)).Nodup :=
    List.Nodup.map (candidate_injective base) List.nodup_range'
  have hlen := hnodup.length_le_of_subset hall
  rw [List.length_map, List.length_range'] at hlen
  omega

/-- A fresh name is not in use. -/
theorem fresh_notMem (used : List String) (base : String) : fresh used base ∉ used := by
  intro hmem
  have hfree : used.contains (fresh used base) = false :=
    not_blocked_firstFree (fun name h => List.contains_iff_mem.mp h) (Nat.le_refl used.length)
  exact absurd (List.contains_iff_mem.mpr hmem) (ne_true_of_eq_false hfree)

/-- A fresh name is the first candidate that is not in use, and the candidates before it are as many names
in use. -/
theorem exists_number_fresh (used : List String) (base : String) :
    ∃ number ≤ used.length, fresh used base = candidate base number ∧
      candidate base number ∉ used ∧ ∀ i < number, candidate base i ∈ used := by
  have hle := firstFree_le used.contains base used.length 0
  refine ⟨firstFree used.contains base used.length 0, by omega, rfl, fresh_notMem used base,
    fun i hi => List.contains_iff_mem.mp (blocked_of_lt_firstFree (Nat.zero_le i) hi)⟩

/-- A name that is not in use stays as it is. -/
theorem fresh_eq_self {used : List String} {base : String} (h : base ∉ used) :
    fresh used base = base := by
  have hfree : used.contains (candidate base 0) = false := by simpa [candidate] using h
  rw [fresh]
  cases used with
  | nil => rfl
  | cons name used =>
    rw [List.length_cons, firstFree, hfree]
    rfl

end ApiScribe.Naming
