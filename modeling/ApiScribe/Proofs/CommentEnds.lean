import ApiScribe.Proofs.Trimming
import ApiScribe.TypeScript.Printer

/-!
# Ends of comments

A comment ends with the first star that a slash is behind.  `TypeScript.IsFree` says that there is none in a
text, and `TypeScript.IsGuarded` that a text is another one with a backslash in every end of a comment.
Texts without ends of comments can be put together where no star meets a slash (`IsFree.append`).

What `escapeCommentEnd` writes is the guarded text (`TypeScript.isGuarded_iff`) and has no end of a comment
in it (`TypeScript.isFree_escapeCommentEnd`).  A line feed is neither a star nor a slash, and neither is
white space.  So it makes no difference whether the ends of comments are guarded before or after a text is
cut into lines (`TypeScript.splitOn_escapeCommentEnd`) and before or after white space is taken off its end
(`TypeScript.trimEnd_escapeCommentEnd`).
-/

namespace ApiScribe.TypeScript

open Text

variable {c : Char} {cs front back : List Char}

/-! ## Ends of comments -/

/-- No comment ends within the text. -/
def IsFree (cs : List Char) : Prop :=
  ¬ ['*', '/'] <:+: cs

theorem isFree_nil : IsFree [] := by
  intro h
  cases List.infix_nil.mp h

theorem isFree_cons : IsFree (c :: cs) ↔ (c = '*' → cs.head? ≠ some '/') ∧ IsFree cs := by
  rw [IsFree, List.infix_cons_iff, not_or, List.cons_prefix_cons, not_and, eq_comm]
  refine and_congr_left fun _ => imp_congr_right fun _ => not_congr ?_
  cases cs with
  | nil => simp
  | cons d ds => simp [List.cons_prefix_cons, eq_comm]

/-- Texts can be put together where no star meets a slash. -/
theorem IsFree.append (hfront : IsFree front) (hback : IsFree back)
    (h : front.getLast? = some '*' → back.head? ≠ some '/') : IsFree (front ++ back) := by
  induction front with
  | nil => exact hback
  | cons c front ih =>
    obtain ⟨hhead, hfront⟩ := isFree_cons.mp hfront
    refine isFree_cons.mpr ⟨fun hc => ?_, ?_⟩
    · cases front with
      | nil => exact h (by rw [hc]; rfl)
      | cons d front => exact hhead hc
    · cases front with
      | nil => exact hback
      | cons d front => exact ih hfront h

theorem isFree_of_not_mem (h : '*' ∉ cs) : IsFree cs :=
  fun hwithin => h (hwithin.subset List.mem_cons_self)

/-! ## Guarded texts -/

/-- The second text is the first one with a backslash in every end of a comment. -/
inductive IsGuarded : List Char → List Char → Prop
  | free {cs : List Char} (h : IsFree cs) : IsGuarded cs cs
  | commentEnd {front cs guarded : List Char} (hfront : IsFree front) (hrest : IsGuarded cs guarded) :
    IsGuarded (front ++ '*' :: '/' :: cs) (front ++ '*' :: '\x5c' :: '/' :: guarded)

theorem IsGuarded.cons {guarded : List Char} (h : IsGuarded cs guarded)
    (hc : c = '*' → cs.head? ≠ some '/') : IsGuarded (c :: cs) (c :: guarded) := by
  cases h with
  | free hfree => exact .free (isFree_cons.mpr ⟨hc, hfree⟩)
  | @commentEnd front more guarded hfront hrest =>
    have hfree : IsFree (c :: front) := by
      refine isFree_cons.mpr ⟨fun hstar hhead => hc hstar ?_, hfront⟩
      rw [List.head?_append, hhead]
      rfl
    exact .commentEnd hfree hrest

/-- A character is left alone unless it is a star with a slash behind it. -/
theorem escapeCommentEnd_cons (h : c = '*' → cs.head? ≠ some '/') :
    escapeCommentEnd (c :: cs) = c :: escapeCommentEnd cs := by
  rw [escapeCommentEnd]
  intro more hc hcs
  exact h hc (by rw [hcs]; rfl)

/-- A text begins with an end of a comment, or its first character is left alone, or it is empty. -/
theorem escapeCommentEnd_induction {motive : List Char → Prop} (nil : motive [])
    (commentEnd : ∀ cs, motive cs → motive ('*' :: '/' :: cs))
    (cons : ∀ c cs, (c = '*' → cs.head? ≠ some '/') → motive cs → motive (c :: cs)) :
    ∀ cs, motive cs := by
  intro cs
  induction cs using escapeCommentEnd.induct with
  | case1 cs ih => exact commentEnd cs ih
  | case2 c cs h ih =>
    refine cons c cs (fun hc hhead => ?_) ih
    obtain ⟨more, hmore⟩ := List.head?_eq_some_iff.mp hhead
    exact h more hc hmore
  | case3 => exact nil

theorem head?_escapeCommentEnd (cs : List Char) : (escapeCommentEnd cs).head? = cs.head? := by
  induction cs using escapeCommentEnd_induction with
  | nil => rfl
  | commentEnd cs ih => rfl
  | cons c cs h ih => rw [escapeCommentEnd_cons h]; rfl

theorem getLast?_escapeCommentEnd (cs : List Char) :
    (escapeCommentEnd cs).getLast? = cs.getLast? := by
  induction cs using escapeCommentEnd_induction with
  | nil => rfl
  | commentEnd cs ih =>
    rw [escapeCommentEnd, List.getLast?_cons_cons, List.getLast?_cons_cons, List.getLast?_cons_cons,
      List.getLast?_cons, List.getLast?_cons, ih]
  | cons c cs h ih => rw [escapeCommentEnd_cons h, List.getLast?_cons, List.getLast?_cons, ih]

theorem escapeCommentEnd_append (h : back.head? ≠ some '/') (front : List Char) :
    escapeCommentEnd (front ++ back) = escapeCommentEnd front ++ escapeCommentEnd back := by
  induction front using escapeCommentEnd_induction with
  | nil => rfl
  | commentEnd front ih =>
    rw [List.cons_append, List.cons_append, escapeCommentEnd, ih, escapeCommentEnd]
    rfl
  | cons c front hc ih =>
    have hboth : c = '*' → (front ++ back).head? ≠ some '/' := by
      cases front with
      | nil => exact fun _ => h
      | cons d front => exact hc
    rw [List.cons_append, escapeCommentEnd_cons hboth, ih, escapeCommentEnd_cons hc]
    rfl

theorem escapeCommentEnd_of_isFree (h : IsFree cs) : escapeCommentEnd cs = cs := by
  induction cs with
  | nil => rfl
  | cons c cs ih =>
    obtain ⟨hhead, hcs⟩ := isFree_cons.mp h
    rw [escapeCommentEnd_cons hhead, ih hcs]

/-- **No comment ends in what is written.** -/
theorem isFree_escapeCommentEnd (cs : List Char) : IsFree (escapeCommentEnd cs) := by
  induction cs using escapeCommentEnd_induction with
  | nil => exact isFree_nil
  | commentEnd cs ih =>
    rw [escapeCommentEnd]
    refine isFree_cons.mpr ⟨fun _ => by simp, isFree_cons.mpr ⟨by simp, isFree_cons.mpr ⟨by simp, ih⟩⟩⟩
  | cons c cs h ih =>
    rw [escapeCommentEnd_cons h]
    refine isFree_cons.mpr ⟨fun hc => ?_, ih⟩
    rw [head?_escapeCommentEnd]
    exact h hc

/-- **What is written is the text with its ends of comments guarded**, and nothing else is. -/
theorem isGuarded_iff {guarded : List Char} : IsGuarded cs guarded ↔ guarded = escapeCommentEnd cs := by
  constructor
  · intro h
    induction h with
    | free h => exact (escapeCommentEnd_of_isFree h).symm
    | commentEnd hfront hrest ih =>
      rw [escapeCommentEnd_append (by simp), escapeCommentEnd_of_isFree hfront, ih, escapeCommentEnd]
  · rintro rfl
    induction cs using escapeCommentEnd_induction with
    | nil => exact .free isFree_nil
    | commentEnd cs ih =>
      rw [escapeCommentEnd]
      exact .commentEnd isFree_nil ih
    | cons c cs h ih =>
      rw [escapeCommentEnd_cons h]
      exact ih.cons h

/-! ## Lines -/

theorem escapeCommentEnd_intercalate (pieces : List (List Char)) :
    escapeCommentEnd (['\n'].intercalate pieces) =
      ['\n'].intercalate (pieces.map escapeCommentEnd) := by
  induction pieces with
  | nil => rfl
  | cons piece pieces ih =>
    cases pieces with
    | nil => rw [List.intercalate_singleton, List.map_singleton, List.intercalate_singleton]
    | cons second pieces =>
      rw [List.intercalate_cons_cons, List.append_assoc, escapeCommentEnd_append (by simp),
        List.singleton_append, escapeCommentEnd_cons fun hc => absurd hc (by decide), ih]
      simp only [List.map_cons, List.intercalate_cons_cons, List.append_assoc, List.singleton_append]

/-- Nothing but backslashes is added. -/
theorem not_mem_escapeCommentEnd (hbackslash : c ≠ '\x5c') (h : c ∉ cs) : c ∉ escapeCommentEnd cs := by
  induction cs using escapeCommentEnd_induction with
  | nil => exact h
  | commentEnd cs ih =>
    rw [escapeCommentEnd]
    simp only [List.mem_cons, not_or] at h ⊢
    exact ⟨h.1, hbackslash, h.2.1, ih h.2.2⟩
  | cons d cs hd ih =>
    rw [escapeCommentEnd_cons hd]
    simp only [List.mem_cons, not_or] at h ⊢
    exact ⟨h.1, ih h.2⟩

/-- Ends of comments do not go over lines, so they are guarded line by line. -/
theorem splitOn_escapeCommentEnd (cs : List Char) :
    (escapeCommentEnd cs).splitOn '\n' = (cs.splitOn '\n').map escapeCommentEnd := by
  have hpieces : ∀ piece ∈ (cs.splitOn '\n').map escapeCommentEnd, '\n' ∉ piece := by
    intro piece hpiece
    obtain ⟨line, hline, rfl⟩ := List.mem_map.mp hpiece
    exact not_mem_escapeCommentEnd (by decide) (not_mem_of_mem_splitOn hline)
  have hne : (cs.splitOn '\n').map escapeCommentEnd ≠ [] := by
    rw [Ne, List.map_eq_nil_iff]
    exact List.splitOn_ne_nil '\n' cs
  calc (escapeCommentEnd cs).splitOn '\n'
      = (escapeCommentEnd (['\n'].intercalate (cs.splitOn '\n'))).splitOn '\n' := by
        rw [List.intercalate_splitOn]
    _ = (['\n'].intercalate ((cs.splitOn '\n').map escapeCommentEnd)).splitOn '\n' := by
        rw [escapeCommentEnd_intercalate]
    _ = (cs.splitOn '\n').map escapeCommentEnd := List.splitOn_intercalate '\n' hpieces hne

/-- White space at the end of a line has no star and no slash in it. -/
theorem trimEnd_escapeCommentEnd (cs : List Char) :
    trimEnd (escapeCommentEnd cs) = escapeCommentEnd (trimEnd cs) := by
  obtain ⟨back, hcs, hblank⟩ := exists_trimEnd cs
  have hstar : '*' ∉ back := fun hmem => absurd (hblank _ hmem) (by decide)
  have hslash : back.head? ≠ some '/' := fun hhead =>
    absurd (hblank _ (List.mem_of_mem_head? hhead)) (by decide)
  have hescaped : escapeCommentEnd cs = escapeCommentEnd (trimEnd cs) ++ back := by
    conv_lhs => rw [hcs]
    rw [escapeCommentEnd_append hslash, escapeCommentEnd_of_isFree (isFree_of_not_mem hstar)]
  rw [hescaped, trimEnd_append hblank]
  rcases trimEnd_cases cs with hnil | ⟨before, c, hlast, hc⟩
  · rw [hnil]
    rfl
  · have hescapedLast : (escapeCommentEnd (trimEnd cs)).getLast? = some c := by
      rw [getLast?_escapeCommentEnd, hlast, List.getLast?_concat]
    obtain ⟨front, hfront⟩ := List.getLast?_eq_some_iff.mp hescapedLast
    rw [hfront, trimEnd_concat hc]

end ApiScribe.TypeScript
