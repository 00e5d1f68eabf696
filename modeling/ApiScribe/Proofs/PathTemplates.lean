import ApiScribe.Operation.PathTemplate
import Mathlib.Data.List.Basic
import Mathlib.Data.List.TakeWhile

/-!
# The pieces of a path

`PathSegment.IsSplit` says, without a reader, what the pieces of a path are.  A placeholder stands between
the first brace that opens and the next one that closes, and text in front of it has no brace that opens.
What is left when no such pair comes any more is text as a whole.  A path has exactly one list of pieces
(`isSplit_iff`), the one that the reader finds.
-/

namespace ApiScribe.PathSegment

/-- Behind the first brace that opens, none closes. -/
def Unclosed (cs : List Char) : Prop :=
  '\x7d' ∉ cs.dropWhile fun c => c ≠ '\x7b'

/-- The characters make up the pieces. -/
inductive IsSplit : List Char → List PathSegment → Prop
  | nil : IsSplit [] []
  | text {cs : List Char} (hne : cs ≠ []) (h : Unclosed cs) : IsSplit cs [.text (String.ofList cs)]
  | placeholder {name cs : List Char} {segments : List PathSegment} (hname : '\x7d' ∉ name)
    (h : IsSplit cs segments) :
    IsSplit ('\x7b' :: (name ++ '\x7d' :: cs)) (.placeholder (String.ofList name) :: segments)
  | textBefore {before name cs : List Char} {segments : List PathSegment} (hne : before ≠ [])
    (hbefore : '\x7b' ∉ before) (hname : '\x7d' ∉ name) (h : IsSplit cs segments) :
    IsSplit (before ++ '\x7b' :: (name ++ '\x7d' :: cs))
      (.text (String.ofList before) :: .placeholder (String.ofList name) :: segments)

/-- A text without braces that open, and what is left of it behind the first one. -/
theorem dropWhile_eq_nil_or_cons (cs : List Char) :
    (cs.dropWhile fun c => c ≠ '\x7b') = [] ∨
      ∃ rest, (cs.dropWhile fun c => c ≠ '\x7b') = '\x7b' :: rest := by
  cases hrest : cs.dropWhile fun c => c ≠ '\x7b' with
  | nil => exact Or.inl rfl
  | cons c rest =>
    have hhead := List.head?_dropWhile_not (fun c => decide (c ≠ '\x7b')) cs
    rw [hrest] at hhead
    have hc : c = '\x7b' := by simpa using hhead
    exact Or.inr ⟨rest, by rw [hc]⟩

theorem notMem_takeWhile (cs : List Char) : '\x7b' ∉ cs.takeWhile fun c => c ≠ '\x7b' := by
  intro hmem
  have hc := List.mem_takeWhile_imp hmem
  simp at hc

/-! ## The reader -/

theorem readFrom_inText {before : List Char} (h : '\x7b' ∉ before) (done rest : List Char) :
    readFrom (.inText done) (before ++ rest) = readFrom (.inText (before.reverse ++ done)) rest := by
  induction before generalizing done with
  | nil => rfl
  | cons c before ih =>
    rw [List.mem_cons, not_or] at h
    rw [List.cons_append, readFrom, if_neg (Ne.symm h.1), ih h.2, List.reverse_cons,
      List.append_assoc]
    rfl

theorem readFrom_inPlaceholder {name : List Char} (h : '\x7d' ∉ name) (before done rest : List Char) :
    readFrom (.inPlaceholder before done) (name ++ rest) =
      readFrom (.inPlaceholder before (name.reverse ++ done)) rest := by
  induction name generalizing done with
  | nil => rfl
  | cons c name ih =>
    rw [List.mem_cons, not_or] at h
    rw [List.cons_append, readFrom, if_neg (Ne.symm h.1), ih h.2, List.reverse_cons,
      List.append_assoc]
    rfl

theorem textOf_reverse {cs : List Char} (h : cs ≠ []) :
    textOf cs.reverse = [.text (String.ofList cs)] := by
  rw [textOf, List.isEmpty_reverse, if_neg (by simpa using h), List.reverse_reverse]

/-- Text, a placeholder, and what is behind it. -/
theorem readFrom_append {before name : List Char} (hbefore : '\x7b' ∉ before) (hname : '\x7d' ∉ name)
    (cs : List Char) :
    readFrom (.inText []) (before ++ '\x7b' :: (name ++ '\x7d' :: cs)) =
      textOf before.reverse ++ .placeholder (String.ofList name) :: readFrom (.inText []) cs := by
  rw [readFrom_inText hbefore, readFrom, if_pos rfl, readFrom_inPlaceholder hname, readFrom,
    if_pos rfl, List.append_nil, List.append_nil, List.reverse_reverse]

/-- What is left is text. -/
theorem readFrom_of_unclosed {cs : List Char} (h : Unclosed cs) :
    readFrom (.inText []) cs = textOf cs.reverse := by
  have hsplit : (cs.takeWhile fun c => c ≠ '\x7b') ++ (cs.dropWhile fun c => c ≠ '\x7b') = cs :=
    List.takeWhile_append_dropWhile
  rcases dropWhile_eq_nil_or_cons cs with hnil | ⟨rest, hrest⟩
  · rw [hnil] at hsplit
    rw [← hsplit, readFrom_inText (notMem_takeWhile cs), readFrom, List.append_nil, List.append_nil]
  · have hclosed : '\x7d' ∉ rest := by
      intro hmem
      rw [Unclosed, hrest] at h
      exact h (List.mem_cons_of_mem _ hmem)
    have hread := readFrom_inPlaceholder hclosed (cs.takeWhile fun c => c ≠ '\x7b').reverse [] []
    rw [hrest] at hsplit
    rw [← hsplit, readFrom_inText (notMem_takeWhile cs), readFrom, if_pos rfl, List.append_nil]
    rw [List.append_nil, List.append_nil] at hread
    rw [hread, readFrom, List.reverse_append, List.reverse_cons, List.append_assoc]
    rfl

/-- The reader finds the pieces. -/
theorem IsSplit.readFrom_eq {cs : List Char} {segments : List PathSegment} (h : IsSplit cs segments) :
    readFrom (.inText []) cs = segments := by
  induction h with
  | nil => rfl
  | text hne h => rw [readFrom_of_unclosed h, textOf_reverse hne]
  | @placeholder name rest _ hname _ ih =>
    have hbefore : '\x7b' ∉ ([] : List Char) := List.not_mem_nil
    have hread := readFrom_append hbefore hname rest
    rw [List.nil_append, ih] at hread
    exact hread
  | textBefore hne hbefore hname _ ih =>
    rw [readFrom_append hbefore hname, textOf_reverse hne, ih]
    rfl

/-- Every text has pieces.  The induction is on its length: behind a placeholder less is left. -/
theorem exists_isSplit (cs : List Char) : ∃ segments, IsSplit cs segments := by
  induction hlength : cs.length using Nat.strong_induction_on generalizing cs with
  | _ length ih =>
    by_cases hunclosed : Unclosed cs
    · by_cases hne : cs = []
      · exact ⟨[], hne ▸ .nil⟩
      · exact ⟨_, .text hne hunclosed⟩
    · rw [Unclosed, not_not] at hunclosed
      have hsplit : (cs.takeWhile fun c => c ≠ '\x7b') ++ (cs.dropWhile fun c => c ≠ '\x7b') = cs :=
        List.takeWhile_append_dropWhile
      have hbefore := notMem_takeWhile cs
      rcases dropWhile_eq_nil_or_cons cs with hnil | ⟨rest, hrest⟩
      · rw [hnil] at hunclosed
        cases hunclosed
      rw [hrest] at hunclosed hsplit
      have hmem : '\x7d' ∈ rest := List.mem_of_ne_of_mem (by decide) hunclosed
      obtain ⟨name, more, rfl, hname⟩ := List.eq_append_cons_of_mem hmem
      have hshorter : more.length < length := by
        rw [← hlength, ← hsplit]
        simp only [List.length_append, List.length_cons]
        omega
      obtain ⟨segments, hsegments⟩ := ih more.length hshorter more rfl
      rw [← hsplit]
      by_cases hne : (cs.takeWhile fun c => c ≠ '\x7b') = []
      · rw [hne]
        exact ⟨_, .placeholder hname hsegments⟩
      · exact ⟨_, .textBefore hne hbefore hname hsegments⟩

/-- **The pieces of a path** are those that the reader finds, and there are no others. -/
theorem isSplit_iff {path : String} {segments : List PathSegment} :
    IsSplit path.toList segments ↔ segments = ofPath path := by
  constructor
  · exact fun h => h.readFrom_eq.symm
  · rintro rfl
    obtain ⟨segments, h⟩ := exists_isSplit path.toList
    rw [ofPath, h.readFrom_eq]
    exact h

end ApiScribe.PathSegment
