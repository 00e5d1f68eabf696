import ApiScribe.Pointer
import ApiScribe.Proofs.CaseMappings

/-!
# Steps as they are written

A step of a pointer stands between slashes, so a slash in a name has to be written differently, and a
tilde too, because the other spelling begins with one.  `Pointer.escape` writes a name as a step, and the
step stands for that name whatever characters it is made of (`Pointer.unescape_escape`).

Not every step was written so.  A text without a tilde stands for itself, and no text stands for a longer
one.  Any texts without slashes are the steps of a pointer, and `Pointer.steps_ofWritten` says where it
leads.
-/

namespace ApiScribe

namespace Text

/-- A text with a separator in it is cut there. -/
theorem pieces_append_cons {p : Char → Bool} {before : List Char} (h : ∀ c ∈ before, p c = false)
    {c : Char} (hc : p c = true) (rest : List Char) :
    pieces p (before ++ c :: rest) = before :: pieces p rest := by
  rw [pieces_eq_splitOnP, List.splitOnP_append_cons before rest hc, List.splitOnP_eq_singleton h,
    ← pieces_eq_splitOnP]
  rfl

/-- A text without separators is its only piece. -/
theorem pieces_eq_singleton {p : Char → Bool} {cs : List Char} (h : ∀ c ∈ cs, p c = false) :
    pieces p cs = [cs] := by
  rw [pieces_eq_splitOnP, List.splitOnP_eq_singleton h]

/-- No piece is longer than the text. -/
theorem length_le_of_mem_pieces {p : Char → Bool} {cs piece : List Char} (h : piece ∈ pieces p cs) :
    piece.length ≤ cs.length := by
  induction cs generalizing piece with
  | nil =>
    obtain rfl := List.mem_singleton.mp h
    exact Nat.le_refl _
  | cons c cs ih =>
    rw [List.length_cons]
    rw [pieces] at h
    split at h
    next =>
      rcases List.mem_cons.mp h with rfl | h
      · exact Nat.zero_le _
      · exact Nat.le_succ_of_le (ih h)
    next =>
      split at h
      next hnil =>
        rw [List.mem_singleton.mp h, List.length_singleton]
        omega
      next head rest hpieces =>
        have hhead := ih (hpieces ▸ List.mem_cons_self : head ∈ pieces p cs)
        rcases List.mem_cons.mp h with rfl | h
        · exact Nat.succ_le_succ hhead
        · exact Nat.le_succ_of_le (ih (hpieces ▸ List.mem_cons_of_mem _ h))

end Text

namespace Pointer

/-! ## One step -/

/-- The way in which a character of a name is written in a step. -/
def escapeChar (c : Char) : List Char :=
  if c = '~' then ['~', '0'] else if c = '/' then ['~', '1'] else [c]

/-- A name as a step. -/
def escape (name : List Char) : List Char :=
  name.flatMap escapeChar

theorem unescape_cons {c : Char} (h : c ≠ '~') (cs : List Char) :
    unescape (c :: cs) = c :: unescape cs := by
  rw [unescape.eq_def]
  split
  next heq => exact absurd (List.cons.inj heq).1 h
  next heq => exact absurd (List.cons.inj heq).1 h
  next heq =>
    obtain ⟨rfl, rfl⟩ := List.cons.inj heq
    rfl
  next heq => cases heq

/-- **A step stands for the name that was written.** -/
theorem unescape_escape (name : List Char) : unescape (escape name) = name := by
  induction name with
  | nil => rfl
  | cons c name ih =>
    rw [escape, List.flatMap_cons, ← escape]
    by_cases htilde : c = '~'
    · subst htilde
      exact congrArg ('~' :: ·) ih
    · by_cases hslash : c = '/'
      · subst hslash
        exact congrArg ('/' :: ·) ih
      · have hkept : escapeChar c = [c] := by rw [escapeChar, if_neg htilde, if_neg hslash]
        rw [hkept, List.singleton_append, unescape_cons htilde, ih]

/-- A step has no slash, whatever the name has. -/
theorem slash_notMem_escape (name : List Char) : '/' ∉ escape name := by
  intro h
  obtain ⟨c, -, hc⟩ := List.mem_flatMap.mp h
  rw [escapeChar] at hc
  split at hc
  · exact absurd hc (by decide)
  · split at hc
    · exact absurd hc (by decide)
    next hslash => exact hslash (List.mem_singleton.mp hc).symm

/-- A name without a tilde is read as itself. -/
theorem unescape_eq_self {name : List Char} (h : '~' ∉ name) : unescape name = name := by
  induction name with
  | nil => rfl
  | cons c name ih =>
    obtain ⟨hc, hname⟩ := not_or.mp (List.mem_cons.not.mp h)
    rw [unescape_cons (Ne.symm hc), ih hname]

/-- What a step stands for is not longer than the step. -/
theorem length_unescape_le (cs : List Char) : (unescape cs).length ≤ cs.length := by
  fun_induction unescape cs with
  | case1 cs ih => simp only [List.length_cons]; omega
  | case2 cs ih => simp only [List.length_cons]; omega
  | case3 c cs _ _ ih => simp only [List.length_cons]; omega
  | case4 => exact Nat.le_refl _

/-! ## Pointers -/

/-- The pointer in which these steps are written. -/
def ofWritten (written : List (List Char)) : String :=
  String.ofList ('#' :: written.flatMap fun step => '/' :: step)

/-- The pieces between the slashes are the steps. -/
theorem pieces_written {step : List Char} {written : List (List Char)} (hstep : '/' ∉ step)
    (h : ∀ step ∈ written, '/' ∉ step) :
    Text.pieces (fun c => c = '/') (step ++ written.flatMap fun step => '/' :: step) =
      step :: written := by
  have hfree : ∀ {step : List Char}, '/' ∉ step → ∀ c ∈ step, decide (c = '/') = false := by
    intro step hstep c hc
    refine decide_eq_false ?_
    rintro rfl
    exact hstep hc
  induction written generalizing step with
  | nil => rw [List.flatMap_nil, List.append_nil, Text.pieces_eq_singleton (hfree hstep)]
  | cons next written ih =>
    obtain ⟨hnext, hwritten⟩ := List.forall_mem_cons.mp h
    rw [List.flatMap_cons, List.cons_append,
      Text.pieces_append_cons (hfree hstep) (decide_eq_true rfl), ih hnext hwritten]

/-- **A pointer leads along the names that its steps stand for.** -/
theorem steps_ofWritten {written : List (List Char)} (h : ∀ step ∈ written, '/' ∉ step) :
    steps (ofWritten written) = .ok (written.map fun step => String.ofList (unescape step)) := by
  rw [steps, ofWritten, String.toList_ofList]
  cases written with
  | nil => rfl
  | cons step written =>
    obtain ⟨hstep, hwritten⟩ := List.forall_mem_cons.mp h
    simp only [List.flatMap_cons, List.cons_append, pieces_written hstep hwritten]

end Pointer

end ApiScribe
