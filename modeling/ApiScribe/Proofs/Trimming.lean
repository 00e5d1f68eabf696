import ApiScribe.Text.Lines
import Mathlib.Data.List.DropRight

/-!
# Texts without the white space at their ends

`Text.trimEnd` gives the longest beginning of a text that does not end in white space.  Two things
determine it: white space behind a text makes no difference (`Text.trimEnd_append`), and a text that ends
in another character is left alone (`Text.trimEnd_concat`).  At the beginning of a text it is the same with
the two ends exchanged.

A text is therefore what `Text.trim` leaves of it with white space around it (`Text.exists_trim`).

Lines end at line feeds, and a carriage return in front of one belongs to it.  Up to white space at their
ends, the lines of a text that does not end in a line feed are what is between its line feeds
(`Text.map_trimEnd_lines`).
-/

namespace ApiScribe.Text

variable {c : Char} {cs front back : List Char}

theorem trimEnd_eq_rdropWhile (cs : List Char) : trimEnd cs = cs.rdropWhile isBlank := rfl

/-- White space at the end does not count. -/
theorem trimEnd_append (hback : ∀ c ∈ back, isBlank c = true) (cs : List Char) :
    trimEnd (cs ++ back) = trimEnd cs := by
  induction back using List.reverseRecOn with
  | nil => rw [List.append_nil]
  | append_singleton back c ih =>
    obtain ⟨hback, hc⟩ := List.forall_mem_append.mp hback
    rw [← List.append_assoc, trimEnd_eq_rdropWhile,
      List.rdropWhile_concat_pos _ _ _ (hc c List.mem_cons_self)]
    exact ih hback

/-- A text that does not end in white space stays as it is. -/
theorem trimEnd_concat (hc : isBlank c = false) (cs : List Char) :
    trimEnd (cs ++ [c]) = cs ++ [c] :=
  List.rdropWhile_concat_neg _ _ _ (ne_true_of_eq_false hc)

/-- What is taken off the end is white space. -/
theorem exists_trimEnd (cs : List Char) :
    ∃ back, cs = trimEnd cs ++ back ∧ ∀ c ∈ back, isBlank c = true :=
  ⟨cs.rtakeWhile isBlank, List.rdropWhile_append_rtakeWhile.symm,
    fun _ hc => List.mem_rtakeWhile_imp hc⟩

/-- Nothing is left of a text, or what is left does not end in white space. -/
theorem trimEnd_cases (cs : List Char) :
    trimEnd cs = [] ∨ ∃ before c, trimEnd cs = before ++ [c] ∧ isBlank c = false := by
  by_cases hnil : trimEnd cs = []
  · exact Or.inl hnil
  · refine Or.inr ⟨(trimEnd cs).dropLast, (trimEnd cs).getLast hnil,
      (List.dropLast_append_getLast hnil).symm, ?_⟩
    exact eq_false_of_ne_true (List.rdropWhile_last_not isBlank cs hnil)

theorem trimEnd_trimEnd (cs : List Char) : trimEnd (trimEnd cs) = trimEnd cs := by
  obtain ⟨back, hcs, hblank⟩ := exists_trimEnd cs
  conv_rhs => rw [hcs, trimEnd_append hblank]

theorem mem_of_mem_trimEnd (h : c ∈ trimEnd cs) : c ∈ cs := by
  obtain ⟨back, hcs, -⟩ := exists_trimEnd cs
  rw [hcs]
  exact List.mem_append_left back h

theorem trimEnd_eq_nil_iff : trimEnd cs = [] ↔ ∀ c ∈ cs, isBlank c = true :=
  List.rdropWhile_eq_nil_iff

theorem trimEnd_cons (c : Char) (cs : List Char) :
    trimEnd (c :: cs) = if trimEnd cs = [] then trimEnd [c] else c :: trimEnd cs := by
  split
  next hnil => exact trimEnd_append (trimEnd_eq_nil_iff.mp hnil) [c]
  next hne =>
    obtain ⟨back, hcs, hblank⟩ := exists_trimEnd cs
    obtain ⟨before, d, hbefore, hd⟩ := (trimEnd_cases cs).resolve_left hne
    calc trimEnd (c :: cs) = trimEnd (c :: before ++ [d] ++ back) := by
          conv_lhs => rw [hcs, hbefore]
          rfl
      _ = c :: before ++ [d] := by rw [trimEnd_append hblank, trimEnd_concat hd]
      _ = c :: trimEnd cs := by rw [hbefore]; rfl

/-- Trimming at the beginning does not go beyond a character that is no white space. -/
theorem trimStart_append_cons (hc : isBlank c = false) (front cs : List Char) :
    trimStart (front ++ c :: cs) = trimStart front ++ c :: cs := by
  rw [trimStart, trimStart, List.dropWhile_append]
  split
  next hnil =>
    rw [List.isEmpty_iff.mp hnil, List.dropWhile_cons_of_neg (ne_true_of_eq_false hc),
      List.nil_append]
  next => rfl

theorem trimStart_eq_nil (hfront : ∀ c ∈ front, isBlank c = true) : trimStart front = [] :=
  List.dropWhile_eq_nil_iff.mpr hfront

/-- A text is what trimming leaves of it, with white space around it. -/
theorem exists_trim (cs : List Char) :
    ∃ front back, cs = front ++ trim cs ++ back ∧ (∀ c ∈ front, isBlank c = true) ∧
      ∀ c ∈ back, isBlank c = true := by
  obtain ⟨back, hback, hblank⟩ := exists_trimEnd (trimStart cs)
  refine ⟨cs.takeWhile isBlank, back, ?_, fun c hc => List.mem_takeWhile_imp hc, hblank⟩
  rw [trim, List.append_assoc, ← hback, trimStart, List.takeWhile_append_dropWhile]

/-- A text between white space that begins and ends in other characters is what trimming leaves. -/
theorem trim_append (hback : ∀ c ∈ back, isBlank c = true) {first last : Char}
    (hfirst : isBlank first = false) (hlast : isBlank last = false) {rest before : List Char}
    (hcore : first :: rest = before ++ [last]) (front : List Char) :
    trim (front ++ first :: rest ++ back) = trimStart front ++ first :: rest := by
  rw [trim, List.append_assoc, List.cons_append, trimStart_append_cons hfirst, ← List.cons_append,
    ← List.append_assoc, trimEnd_append hback, hcore, ← List.append_assoc, trimEnd_concat hlast]

theorem trim_eq_nil_iff : trim cs = [] ↔ ∀ c ∈ cs, isBlank c = true := by
  constructor
  · intro hnil c hc
    obtain ⟨front, back, hcs, hfront, hback⟩ := exists_trim cs
    rw [hcs, hnil, List.append_nil] at hc
    exact (List.mem_append.mp hc).elim (hfront c) (hback c)
  · intro hblank
    rw [trim, trimStart_eq_nil hblank]
    rfl

/-! ## Lines -/

/-- What is between the separators has none of them in it. -/
theorem not_mem_of_mem_splitOn {separator : Char} {piece : List Char}
    (h : piece ∈ cs.splitOn separator) : separator ∉ piece := by
  induction cs generalizing piece with
  | nil =>
    rw [List.splitOn_nil, List.mem_singleton] at h
    rw [h]
    exact List.not_mem_nil
  | cons c cs ih =>
    obtain ⟨first, rest, hsplit⟩ := List.exists_cons_of_ne_nil (List.splitOn_ne_nil separator cs)
    rw [hsplit] at ih
    rw [List.splitOn_cons_eq_if_modifyHead, hsplit] at h
    split at h
    next =>
      rcases List.mem_cons.mp h with rfl | hmem
      · exact List.not_mem_nil
      · exact ih hmem
    next hne =>
      rcases List.mem_cons.mp h with rfl | hmem
      · intro hmem
        rcases List.mem_cons.mp hmem with rfl | hmem
        · exact hne BEq.rfl
        · exact ih List.mem_cons_self hmem
      · exact ih (List.mem_cons_of_mem first hmem)

theorem lines_eq_nil_iff : lines cs = [] ↔ cs = [] := by
  fun_cases lines cs <;> simp

/-- The lines of a text are what is between its line feeds, up to white space at their ends, of which a
carriage return is one. -/
theorem map_trimEnd_lines (hne : cs ≠ []) (hlast : cs.getLast? ≠ some '\n') :
    (lines cs).map trimEnd = (cs.splitOn '\n').map trimEnd := by
  have hrest : ∀ {c : Char} {more : List Char}, more ≠ [] → (c :: more).getLast? ≠ some '\n' →
      more.getLast? ≠ some '\n' := by
    intro c more hmore hlast
    obtain ⟨d, ds, rfl⟩ := List.exists_cons_of_ne_nil hmore
    exact hlast
  induction cs using lines.induct with
  | case1 => exact absurd rfl hne
  | case2 cs ih =>
    have hcs : cs ≠ [] := by
      rintro rfl
      exact hlast rfl
    rw [lines, List.map_cons, ih hcs (hrest hcs hlast), List.splitOn_cons_eq_if_modifyHead]
    rfl
  | case3 cs ih =>
    have hcs : cs ≠ [] := by
      rintro rfl
      exact hlast rfl
    rw [lines, List.map_cons, ih hcs (hrest hcs hlast), List.splitOn_cons_eq_if_modifyHead,
      List.splitOn_cons_eq_if_modifyHead]
    rfl
  | case4 c cs hline hreturn hnil ih =>
    obtain rfl : cs = [] := lines_eq_nil_iff.mp hnil
    rw [lines, hnil, List.splitOn_cons_eq_if_modifyHead, if_neg (by simpa using hline)]
    · rfl
    · exact hline
    · exact hreturn
  | case5 c cs hline hreturn line rest hcons ih =>
    have hcs : cs ≠ [] := fun hnil => by
      rw [hnil] at hcons
      cases hcons
    obtain ⟨first, others, hsplit⟩ := List.exists_cons_of_ne_nil (List.splitOn_ne_nil '\n' cs)
    have hrest := ih hcs (hrest hcs hlast)
    rw [hcons, hsplit, List.map_cons, List.map_cons, List.cons.injEq] at hrest
    rw [lines, hcons, List.splitOn_cons_eq_if_modifyHead, if_neg (by simpa using hline), hsplit,
      List.modifyHead_cons, List.map_cons, List.map_cons, trimEnd_cons c line, trimEnd_cons c first,
      hrest.1, hrest.2]
    · exact hline
    · exact hreturn

end ApiScribe.Text
