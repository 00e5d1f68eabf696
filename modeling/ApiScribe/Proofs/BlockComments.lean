import ApiScribe.Proofs.CommentEnds
import Mathlib.Data.List.Forall2

/-!
# Comments for descriptions

The reader (`TypeScript.readComment?`) takes a comment from the beginning of a text: its content goes up to
the first end of a comment.  The lines of the content (`TypeScript.contentLines`) are those between the
first and the last one, without the blanks, the star and the blank in front of them, or the only one there
is.

What is written for lines is read as the lines (`TypeScript.contentLines_commentContent`), and if none of
them has an end of a comment in it, neither has the content (`TypeScript.isFree_commentContent`): the stars
and the slashes around the lines are kept apart from them by blanks and line feeds.  Therefore a
description becomes one comment that ends where it is meant to (`TypeScript.comment_closed`).
-/

namespace ApiScribe.TypeScript

open Text

/-! ## The reader of comments -/

/-- The content of a comment up to its end, and what is behind it. -/
def readContent? : List Char → Option (List Char × List Char)
  | '*' :: '/' :: cs => some ([], cs)
  | c :: cs => (readContent? cs).map fun (content, rest) => (c :: content, rest)
  | [] => none

/-- The content of the comment that a text begins with, and what is behind it. -/
def readComment? : List Char → Option (List Char × List Char)
  | '/' :: '*' :: cs => readContent? cs
  | _ => none

/-- A line without what stands in front of it in a comment: blanks, a star, and one blank. -/
def undecorate (line : List Char) : List Char :=
  match line.dropWhile (· = ' ') with
  | '*' :: ' ' :: cs => cs
  | '*' :: cs => cs
  | cs => cs

/-- The lines of a comment with the given content: those between the first and the last one, or the only
one, which may have blanks behind it. -/
def contentLines (content : List Char) : List (List Char) :=
  match content.splitOn '\n' with
  | [line] => [trimEnd (undecorate line)]
  | pieces => pieces.tail.dropLast.map undecorate

/-- The comment is read up to the first end that stands in it. -/
theorem readContent?_append {content : List Char} (h : IsFree content) (rest : List Char) :
    readContent? (content ++ '*' :: '/' :: rest) = some (content, rest) := by
  induction content with
  | nil => rfl
  | cons c content ih =>
    obtain ⟨hhead, hcontent⟩ := isFree_cons.mp h
    rw [List.cons_append, readContent?, ih hcontent]
    · rfl
    · intro more hc hmore
      cases content with
      | nil => cases hmore
      | cons d content => exact hhead hc (congrArg some (List.cons.inj hmore).1)

/-! ## What is written -/

/-- A line as it stands in a comment of several lines, behind `n` blanks. -/
def decorate (n : Nat) (line : List Char) : List Char :=
  List.replicate (n + 1) ' ' ++ '*' :: if line = [] then [] else ' ' :: line

/-- What stands on the lines of a comment that has a line of its own for each of the given ones. -/
def commentPieces (n : Nat) (lines : List (List Char)) : List (List Char) :=
  ['*'] :: lines.map (decorate n) ++ [List.replicate (n + 1) ' ']

/-- What is written between the marks of a comment. -/
def commentContent (n : Nat) : List (List Char) → List Char
  | [line] => '*' :: ' ' :: line ++ [' ']
  | lines => ['\n'].intercalate (commentPieces n lines)

theorem not_mem_blanks {c : Char} (h : c ≠ ' ') (n : Nat) : c ∉ List.replicate n ' ' :=
  fun hmem => h (List.eq_of_mem_replicate hmem)

theorem forall_mem_commentPieces {n : Nat} {lines : List (List Char)} {p : List Char → Prop}
    (star : p ['*']) (hlines : ∀ line ∈ lines, p (decorate n line))
    (last : p (List.replicate (n + 1) ' ')) : ∀ piece ∈ commentPieces n lines, p piece := by
  rw [commentPieces, List.forall_mem_append, List.forall_mem_cons, List.forall_mem_map,
    List.forall_mem_singleton]
  exact ⟨⟨star, hlines⟩, last⟩

theorem undecorate_decorate (n : Nat) (line : List Char) : undecorate (decorate n line) = line := by
  have hblank : ∀ c ∈ List.replicate (n + 1) ' ', decide (c = ' ') = true :=
    fun c hc => decide_eq_true (List.eq_of_mem_replicate hc)
  have hdrop : (decorate n line).dropWhile (· = ' ') =
      '*' :: if line = [] then [] else ' ' :: line := by
    rw [decorate, List.dropWhile_append_of_pos hblank, List.dropWhile_cons_of_neg (by decide)]
  rw [undecorate, hdrop]
  cases line <;> rfl

theorem not_mem_decorate {n : Nat} {line : List Char} (h : '\n' ∉ line) : '\n' ∉ decorate n line := by
  rw [decorate]
  split <;> simp [h]

/-- **The lines of a comment are those that it was written with.** -/
theorem contentLines_commentContent {n : Nat} {lines : List (List Char)} (hne : lines ≠ [])
    (hlines : ∀ line ∈ lines, '\n' ∉ line ∧ trimEnd line = line) :
    contentLines (commentContent n lines) = lines := by
  match lines with
  | [line] =>
    obtain ⟨hline, htrim⟩ := hlines line List.mem_cons_self
    have hcontent : undecorate ('*' :: ' ' :: line ++ [' ']) = line ++ [' '] := rfl
    rw [commentContent, contentLines, List.splitOn_eq_singleton (by simp [hline])]
    simp only
    rw [hcontent, trimEnd_append (List.forall_mem_singleton.mpr rfl), htrim]
  | first :: second :: rest =>
    have hpieces : ∀ piece ∈ commentPieces n (first :: second :: rest), '\n' ∉ piece :=
      forall_mem_commentPieces (by decide) (fun line hline => not_mem_decorate (hlines line hline).1)
        (not_mem_blanks (by decide) (n + 1))
    have hsplit := List.splitOn_intercalate '\n' hpieces (List.cons_ne_nil _ _)
    have hundecorate : undecorate ∘ decorate n = id := funext (undecorate_decorate n)
    rw [commentContent, contentLines, hsplit]
    · change (((first :: second :: rest).map (decorate n)) ++ [_]).dropLast.map undecorate = _
      rw [List.dropLast_concat, List.map_map, hundecorate, List.map_id]
    · intro line hline
      cases (List.cons.inj hline).2

theorem isFree_blanks_append {cs : List Char} (h : IsFree cs) (n : Nat) :
    IsFree (List.replicate n ' ' ++ cs) := by
  have hblanks : '*' ∉ List.replicate n ' ' := not_mem_blanks (by decide) n
  exact (isFree_of_not_mem hblanks).append h fun hlast => absurd (List.mem_of_getLast? hlast) hblanks

theorem isFree_decorate {n : Nat} {line : List Char} (h : IsFree line) : IsFree (decorate n line) := by
  refine isFree_blanks_append ?_ (n + 1)
  split
  next => exact isFree_cons.mpr ⟨by simp, isFree_nil⟩
  next => exact isFree_cons.mpr ⟨by simp, isFree_cons.mpr ⟨by simp, h⟩⟩

theorem isFree_intercalate {pieces : List (List Char)} (h : ∀ piece ∈ pieces, IsFree piece) :
    IsFree (['\n'].intercalate pieces) := by
  induction pieces with
  | nil => exact isFree_nil
  | cons piece pieces ih =>
    obtain ⟨hpiece, hpieces⟩ := List.forall_mem_cons.mp h
    cases pieces with
    | nil =>
      rw [List.intercalate_singleton]
      exact hpiece
    | cons second pieces =>
      rw [List.intercalate_cons_cons]
      refine (hpiece.append (isFree_of_not_mem (by decide)) fun _ => by simp).append (ih hpieces) ?_
      rw [List.getLast?_concat]
      exact fun hlast => absurd hlast (by decide)

theorem isFree_commentContent {n : Nat} {lines : List (List Char)}
    (hlines : ∀ line ∈ lines, IsFree line) : IsFree (commentContent n lines) := by
  rw [commentContent.eq_def]
  split
  next line =>
    have hline : IsFree (line ++ [' ']) :=
      (hlines line List.mem_cons_self).append (isFree_of_not_mem (by decide)) fun _ => by simp
    exact isFree_cons.mpr ⟨by simp, isFree_cons.mpr ⟨by simp, hline⟩⟩
  next hsingle =>
    exact isFree_intercalate (forall_mem_commentPieces (isFree_cons.mpr ⟨by simp, isFree_nil⟩)
      (fun line hline => isFree_decorate (hlines line hline))
      (isFree_of_not_mem (not_mem_blanks (by decide) (n + 1))))

theorem intercalate_concat {α : Type} (separator last : List α) (pieces : List (List α)) :
    separator.intercalate (pieces ++ [last]) =
      (pieces.flatMap fun piece => piece ++ separator) ++ last := by
  induction pieces with
  | nil => exact List.intercalate_singleton
  | cons piece pieces ih =>
    rw [List.cons_append, List.intercalate_cons_of_ne_nil (by simp), ih, List.flatMap_cons,
      List.append_assoc, List.append_assoc, List.append_assoc]

theorem toList_commentLine (n : Nat) (line : String) :
    (commentLine (String.ofList (List.replicate n ' ')) line).toList =
      decorate n line.toList ++ ['\n'] := by
  by_cases hempty : line = ""
  · rw [hempty, commentLine, if_pos (String.isEmpty_iff.mpr rfl)]
    simp [decorate, List.replicate_succ']
  · have hne : line.toList ≠ [] := fun hnil => hempty (String.toList_eq_nil_iff.mp hnil)
    rw [commentLine, if_neg fun h => hempty (String.isEmpty_iff.mp h), decorate, if_neg hne]
    simp [List.replicate_succ']

/-- The text of a comment: its content between its marks. -/
theorem toList_comment {text : String} (h : commentLines text ≠ []) (n : Nat) :
    (comment (String.ofList (List.replicate n ' ')) (some text)).toList =
      List.replicate n ' ' ++
        '/' :: '*' :: (commentContent n ((commentLines text).map String.toList) ++ ['*', '/', '\n']) := by
  rw [comment]
  split
  next hnil => exact absurd hnil h
  next line hline =>
    rw [hline, List.map_singleton, commentContent]
    simp
  next hnil hsingle =>
    rw [commentContent, commentPieces, intercalate_concat]
    · simp [String.toList_join, List.flatMap_map, toList_commentLine, List.replicate_succ']
    · intro line hline
      obtain ⟨only, honly, -⟩ := List.map_eq_singleton_iff.mp hline
      exact hsingle only honly

/-- The lines of a comment are the lines of the trimmed description, without white space at their ends and
with their ends of comments guarded. -/
theorem toList_commentLines {text : String} (h : trim text.toList ≠ []) :
    (commentLines text).map String.toList =
      (((trim text.toList).splitOn '\n').map trimEnd).map escapeCommentEnd := by
  have hne : escapeCommentEnd (trim text.toList) ≠ [] := by
    rw [Ne, ← List.head?_eq_none_iff, head?_escapeCommentEnd, List.head?_eq_none_iff]
    exact h
  have hlast : (escapeCommentEnd (trim text.toList)).getLast? ≠ some '\n' := by
    obtain ⟨before, c, hbefore, hc⟩ := (trimEnd_cases (trimStart text.toList)).resolve_left h
    rw [getLast?_escapeCommentEnd, trim, hbefore, List.getLast?_concat, Ne, Option.some_inj]
    rintro rfl
    cases hc
  have htoList : String.toList ∘ (fun line => String.ofList (trimEnd line)) = trimEnd :=
    funext fun line => String.toList_ofList
  have hcomm : trimEnd ∘ escapeCommentEnd = escapeCommentEnd ∘ trimEnd := funext trimEnd_escapeCommentEnd
  rw [commentLines, List.map_map, htoList, map_trimEnd_lines hne hlast, splitOn_escapeCommentEnd,
    List.map_map, hcomm, List.map_map]

theorem commentLines_eq_nil_iff {text : String} :
    commentLines text = [] ↔ ∀ c ∈ text.toList, isBlank c = true := by
  rw [← trim_eq_nil_iff]
  constructor
  · intro hlines
    by_contra h
    have hnil := toList_commentLines h
    rw [hlines, List.map_nil] at hnil
    exact List.splitOn_ne_nil _ _ (List.map_eq_nil_iff.mp (List.map_eq_nil_iff.mp hnil.symm))
  · intro h
    rw [commentLines, h]
    rfl

/-! ## One comment -/

/-- The only end of a comment is the one behind a text that has none. -/
theorem IsFree.eq_of_append_eq {front tail before after : List Char} (hfront : IsFree front)
    (htail : IsFree tail) (h : front ++ '*' :: '/' :: tail = before ++ '*' :: '/' :: after) :
    tail = after := by
  induction front generalizing before with
  | nil =>
    cases before with
    | nil => exact (List.cons.inj (List.cons.inj h).2).2
    | cons b before =>
      have hwithin : ['*', '/'] <:+: '/' :: tail := ⟨before, after, by simpa using (List.cons.inj h).2.symm⟩
      exact absurd hwithin (isFree_cons.mpr ⟨by simp, htail⟩)
  | cons c front ih =>
    obtain ⟨hhead, hfront⟩ := isFree_cons.mp hfront
    cases before with
    | nil =>
      obtain ⟨hc, hrest⟩ := List.cons.inj h
      cases front with
      | nil => cases (List.cons.inj hrest).1
      | cons d front => exact absurd (congrArg some (List.cons.inj hrest).1) (hhead hc)
    | cons b before => exact ih hfront (List.cons.inj h).2

theorem exists_commentContent (n : Nat) (lines : List (List Char)) :
    ∃ more, commentContent n lines = '*' :: more := by
  rw [commentContent.eq_def]
  split
  next line => exact ⟨_, rfl⟩
  next => exact ⟨_, List.intercalate_cons_cons_left⟩

/-- Behind `n` blanks, the text is one comment: its content stands between the marks of a comment for
readers, the first end of a comment is its own, with a line feed behind it, and so whatever is behind the
text is read as what is behind the comment. -/
structure IsComment (n : Nat) (content cs : List Char) : Prop where
  text : cs = List.replicate n ' ' ++ '/' :: '*' :: '*' :: (content ++ ['*', '/', '\n'])
  ends : ∀ before after : List Char, cs = before ++ '*' :: '/' :: after → after = ['\n']
  reads : ∀ following : List Char,
    readComment? (cs.drop n ++ following) = some ('*' :: content, '\n' :: following)

theorem isComment_of_isFree {content : List Char} (h : IsFree ('*' :: content)) (n : Nat) :
    IsComment n content
      (List.replicate n ' ' ++ '/' :: '*' :: '*' :: (content ++ ['*', '/', '\n'])) := by
  have hopening : IsFree ('/' :: '*' :: '*' :: content) :=
    isFree_cons.mpr ⟨by simp, isFree_cons.mpr ⟨by simp, h⟩⟩
  have hfront : IsFree (List.replicate n ' ' ++ '/' :: '*' :: '*' :: content) :=
    isFree_blanks_append hopening n
  refine ⟨rfl, fun before after heq => ?_, fun following => ?_⟩
  · have hends : List.replicate n ' ' ++ '/' :: '*' :: '*' :: content ++ '*' :: '/' :: ['\n'] =
        before ++ '*' :: '/' :: after := by
      rw [← heq, List.append_assoc]
      rfl
    exact (hfront.eq_of_append_eq (isFree_of_not_mem (by decide)) hends).symm
  · rw [List.drop_left' List.length_replicate]
    have hread := readContent?_append h ('\n' :: following)
    simpa [readComment?] using hread

/-- **What is written for a description is one comment**, and its lines are those that were written. -/
theorem exists_isComment {text : String} (h : trim text.toList ≠ []) (n : Nat) :
    ∃ content : List Char,
      IsComment n content (comment (String.ofList (List.replicate n ' ')) (some text)).toList ∧
      contentLines ('*' :: content) = (commentLines text).map String.toList := by
  have hne : commentLines text ≠ [] := fun hnil =>
    h (trim_eq_nil_iff.mpr (commentLines_eq_nil_iff.mp hnil))
  have hline : ∀ line ∈ (commentLines text).map String.toList,
      ∃ piece ∈ (trim text.toList).splitOn '\n', line = escapeCommentEnd (trimEnd piece) := by
    intro line hline
    rw [toList_commentLines h, List.map_map] at hline
    obtain ⟨piece, hpiece, rfl⟩ := List.mem_map.mp hline
    exact ⟨piece, hpiece, rfl⟩
  have hfree : IsFree (commentContent n ((commentLines text).map String.toList)) := by
    refine isFree_commentContent fun line hmem => ?_
    obtain ⟨piece, -, rfl⟩ := hline line hmem
    exact isFree_escapeCommentEnd (trimEnd piece)
  have hread : contentLines (commentContent n ((commentLines text).map String.toList)) =
      (commentLines text).map String.toList := by
    refine contentLines_commentContent (fun hnil => hne (List.map_eq_nil_iff.mp hnil)) fun line hmem => ?_
    obtain ⟨piece, hpiece, rfl⟩ := hline line hmem
    refine ⟨not_mem_escapeCommentEnd (by decide) fun hbreak => ?_, ?_⟩
    · exact not_mem_of_mem_splitOn hpiece (mem_of_mem_trimEnd hbreak)
    · rw [trimEnd_escapeCommentEnd, trimEnd_trimEnd]
  obtain ⟨content, hcontent⟩ := exists_commentContent n ((commentLines text).map String.toList)
  rw [hcontent] at hfree hread
  refine ⟨content, ?_, hread⟩
  rw [toList_comment hne, hcontent]
  exact isComment_of_isFree hfree n

theorem comment_eq_empty_iff {n : Nat} {text : String} :
    comment (String.ofList (List.replicate n ' ')) (some text) = "" ↔
      ∀ c ∈ text.toList, isBlank c = true := by
  refine ⟨fun hempty => ?_, fun hblank => ?_⟩
  · by_contra hblank
    obtain ⟨content, hcomment, -⟩ :=
      exists_isComment (fun hnil => hblank (trim_eq_nil_iff.mp hnil)) n
    have htext := hcomment.text
    rw [hempty] at htext
    simp at htext
  · rw [comment, commentLines_eq_nil_iff.mpr hblank]

/-- **A description becomes one comment.** There is none if there is no description, or one of white space
only.  Otherwise the lines of the comment are those of the trimmed description, without white space at
their ends and with their ends of comments guarded. -/
theorem comment_closed (n : Nat) (description : Option String) :
    (comment (String.ofList (List.replicate n ' ')) description = "" ↔
      ∀ text ∈ description, ∀ c ∈ text.toList, isBlank c = true) ∧
    ∀ text ∈ description, (∃ c ∈ text.toList, isBlank c = false) →
      ∃ content : List Char,
        IsComment n content (comment (String.ofList (List.replicate n ' ')) description).toList ∧
        List.Forall₂ IsGuarded (((trim text.toList).splitOn '\n').map trimEnd)
          (contentLines ('*' :: content)) := by
  constructor
  · cases description with
    | none => exact iff_of_true rfl (by simp)
    | some text => simpa using comment_eq_empty_iff
  · rintro text rfl ⟨c, hc, hblank⟩
    have htrim : trim text.toList ≠ [] := fun hnil =>
      ne_true_of_eq_false hblank (trim_eq_nil_iff.mp hnil c hc)
    obtain ⟨content, hcomment, hlines⟩ := exists_isComment htrim n
    refine ⟨content, hcomment, ?_⟩
    rw [hlines, toList_commentLines htrim, List.forall₂_map_right_iff, List.forall₂_same]
    exact fun line _ => isGuarded_iff.mpr rfl

/-- A description that tries to end its comment, with a star in front of an end and with a star and a slash
on two lines. -/
theorem comment_closed_hostile :
    (∃ c ∈ " a **/ x()\r\n\n */ *\n/ ".toList, isBlank c = false) ∧
    ∃ content : List Char,
      IsComment 2 content (comment "  " (some " a **/ x()\r\n\n */ *\n/ ")).toList ∧
      List.Forall₂ IsGuarded ["a **/ x()".toList, [], " */ *".toList, "/".toList]
        (contentLines ('*' :: content)) := by
  have hvisible : ∃ c ∈ " a **/ x()\r\n\n */ *\n/ ".toList, isBlank c = false :=
    ⟨'a', by decide, by decide⟩
  exact ⟨hvisible, (comment_closed 2 (some " a **/ x()\r\n\n */ *\n/ ")).2 _ rfl hvisible⟩

end ApiScribe.TypeScript
