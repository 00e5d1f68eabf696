import ApiScribe.Proofs.PathTemplates

/-!
# What the pieces of a path keep

`IsSplit` builds the pieces of a path from its front.  They can also be known by what is seen in them:
side by side they spell the path, and they are cut as far as can be.  No name has a brace that closes, no
text is empty or stands beside another one, and a brace that opens is in no text but the last, with none
that closes behind it.  The pieces of a path have all this, and nothing else has (`ofPath_lossless`).

The second part is about the path in its encoded form.  `cutByOffsets?` looks there for the offsets of
the braces of a placeholder, cuts at them, and goes on with what is behind.  An offset may be inside a
character or behind the end, and then nothing can be cut.  This never happens: the offsets of braces are
where characters begin, and a brace is one byte wide.  What is cut are the pieces of the path.
-/

namespace ApiScribe.PathSegment

/-! ## Pieces side by side -/

/-- How a piece stands in a path. -/
def written : PathSegment → String
  | .text content => content
  | .placeholder name => "\x7b" ++ name ++ "\x7d"

/-- The path with these pieces. -/
def spelled (segments : List PathSegment) : String :=
  String.join (segments.map written)

/-- The pieces are cut as far as can be: names end at the first brace that closes, texts are not cut any
further, and no placeholder is left in them. -/
structure IsMaximal (segments : List PathSegment) : Prop where
  closed : ∀ name, .placeholder name ∈ segments → '\x7d' ∉ name.toList
  filled : .text "" ∉ segments
  apart : ∀ one other, ¬ [.text one, .text other] <:+: segments
  last : ∀ front content back, segments = front ++ .text content :: back →
    ∀ before after, content.toList = before ++ '\x7b' :: after → back = [] ∧ '\x7d' ∉ after

theorem toList_spelled_text (content : String) (segments : List PathSegment) :
    (spelled (.text content :: segments)).toList = content.toList ++ (spelled segments).toList := by
  rw [spelled, List.map_cons, String.join_cons, String.toList_append]
  rfl

theorem toList_spelled_placeholder (name : String) (segments : List PathSegment) :
    (spelled (.placeholder name :: segments)).toList =
      '\x7b' :: (name.toList ++ '\x7d' :: (spelled segments).toList) := by
  rw [spelled, List.map_cons, String.join_cons, written]
  simp [spelled]

theorem isMaximal_nil : IsMaximal [] where
  closed _ hmem := absurd hmem List.not_mem_nil
  filled := List.not_mem_nil
  apart _ _ hinfix := absurd (List.eq_nil_of_infix_nil hinfix) (List.cons_ne_nil _ _)
  last _ _ _ heq := absurd heq.symm (List.append_ne_nil_of_right_ne_nil _ (List.cons_ne_nil _ _))

theorem IsMaximal.tail {segment : PathSegment} {segments : List PathSegment}
    (h : IsMaximal (segment :: segments)) : IsMaximal segments where
  closed name hmem := h.closed name (List.mem_cons_of_mem _ hmem)
  filled hmem := h.filled (List.mem_cons_of_mem _ hmem)
  apart one other hinfix := h.apart one other (List.infix_cons hinfix)
  last front content back heq := h.last (segment :: front) content back (congrArg _ heq)

/-- In front of pieces, any placeholder whose name has no brace that closes. -/
theorem isMaximal_placeholder_cons_iff {name : String} {segments : List PathSegment} :
    IsMaximal (.placeholder name :: segments) ↔ '\x7d' ∉ name.toList ∧ IsMaximal segments := by
  constructor
  · exact fun h => ⟨h.closed name List.mem_cons_self, h.tail⟩
  · rintro ⟨hname, h⟩
    refine ⟨fun other hmem => ?_, fun hmem => ?_, fun one other hinfix => ?_, ?_⟩
    · rcases List.mem_cons.mp hmem with heq | hmem
      · rw [PathSegment.placeholder.inj heq]
        exact hname
      · exact h.closed other hmem
    · exact h.filled ((List.mem_cons.mp hmem).resolve_left nofun)
    · rcases List.infix_cons_iff.mp hinfix with hprefix | hinfix
      · cases (List.cons_prefix_cons.mp hprefix).1
      · exact h.apart one other hinfix
    · intro front content back heq
      cases front with
      | nil => cases heq
      | cons first front => exact h.last front content back (List.cons.inj heq).2

/-- In front of pieces, a text that has something in it, if no text comes next and a brace that opens in
it is closed by nothing in the path. -/
theorem isMaximal_text_cons_iff {content : String} {segments : List PathSegment} :
    IsMaximal (.text content :: segments) ↔
      content ≠ "" ∧ (∀ other, segments.head? ≠ some (.text other)) ∧
        (∀ before after, content.toList = before ++ '\x7b' :: after →
          segments = [] ∧ '\x7d' ∉ after) ∧ IsMaximal segments := by
  constructor
  · intro h
    refine ⟨?_, fun other hhead => ?_, h.last [] content segments rfl, h.tail⟩
    · rintro rfl
      exact h.filled List.mem_cons_self
    · obtain ⟨rest, rfl⟩ := List.head?_eq_some_iff.mp hhead
      exact h.apart content other ⟨[], rest, rfl⟩
  · rintro ⟨hfilled, hapart, hlast, h⟩
    refine ⟨fun other hmem => ?_, fun hmem => ?_, fun one other hinfix => ?_, ?_⟩
    · exact h.closed other ((List.mem_cons.mp hmem).resolve_left nofun)
    · rcases List.mem_cons.mp hmem with heq | hmem
      · exact hfilled (PathSegment.text.inj heq).symm
      · exact h.filled hmem
    · rcases List.infix_cons_iff.mp hinfix with hprefix | hinfix
      · obtain ⟨rest, rfl⟩ := (List.cons_prefix_cons.mp hprefix).2
        exact hapart other rfl
      · exact h.apart one other hinfix
    · intro front other back heq
      cases front with
      | nil =>
        obtain ⟨htext, rfl⟩ := List.cons.inj heq
        rw [← PathSegment.text.inj htext]
        exact hlast
      | cons first front => exact h.last front other back (List.cons.inj heq).2

/-! ## The split of a path -/

theorem unclosed_iff {cs : List Char} :
    Unclosed cs ↔ ∀ before after, cs = before ++ '\x7b' :: after → '\x7d' ∉ after := by
  constructor
  · rintro h before after rfl hmem
    rw [Unclosed, List.dropWhile_append] at h
    split at h
    · exact h (List.mem_cons_of_mem _ hmem)
    · exact h (List.mem_append_right _ (List.mem_cons_of_mem _ hmem))
  · intro h hmem
    rcases dropWhile_eq_nil_or_cons cs with hnil | ⟨rest, hrest⟩
    · rw [hnil] at hmem
      cases hmem
    · rw [hrest] at hmem
      refine h (cs.takeWhile fun c => c ≠ '\x7b') rest ?_ (List.mem_of_ne_of_mem (by decide) hmem)
      rw [← hrest, List.takeWhile_append_dropWhile]

/-- The pieces of a split spell what was split, and they are cut as far as can be. -/
theorem IsSplit.isMaximal {cs : List Char} {segments : List PathSegment} (h : IsSplit cs segments) :
    (spelled segments).toList = cs ∧ IsMaximal segments := by
  induction h with
  | nil => exact ⟨rfl, isMaximal_nil⟩
  | text hne h =>
    rw [toList_spelled_text, isMaximal_text_cons_iff, String.toList_ofList]
    exact ⟨List.append_nil _, by simpa using hne, nofun,
      fun before after heq => ⟨rfl, unclosed_iff.mp h before after heq⟩, isMaximal_nil⟩
  | placeholder hname _ ih =>
    rw [toList_spelled_placeholder, isMaximal_placeholder_cons_iff, String.toList_ofList, ih.1]
    exact ⟨rfl, hname, ih.2⟩
  | textBefore hne hbefore hname _ ih =>
    rw [toList_spelled_text, toList_spelled_placeholder, isMaximal_text_cons_iff,
      isMaximal_placeholder_cons_iff, String.toList_ofList, String.toList_ofList, ih.1]
    refine ⟨rfl, by simpa using hne, nofun, fun front back heq => ?_, hname, ih.2⟩
    rw [heq] at hbefore
    exact absurd (List.mem_append_right front List.mem_cons_self) hbefore

/-- Pieces that are cut as far as can be are a split of what they spell.  A text is taken together with
the placeholder behind it, because a split takes them so. -/
theorem IsMaximal.isSplit : ∀ {segments : List PathSegment}, IsMaximal segments →
    IsSplit (spelled segments).toList segments
  | [], _ => .nil
  | .placeholder name :: segments, h => by
    obtain ⟨hname, hrest⟩ := isMaximal_placeholder_cons_iff.mp h
    have hsplit := IsSplit.placeholder hname hrest.isSplit
    rw [String.ofList_toList] at hsplit
    rw [toList_spelled_placeholder]
    exact hsplit
  | [.text content], h => by
    obtain ⟨hfilled, -, hlast, -⟩ := isMaximal_text_cons_iff.mp h
    have hunclosed : Unclosed content.toList :=
      unclosed_iff.mpr fun before after heq => (hlast before after heq).2
    have hsplit := IsSplit.text (mt String.toList_eq_nil_iff.mp hfilled) hunclosed
    rw [String.ofList_toList] at hsplit
    rw [toList_spelled_text]
    exact (List.append_nil content.toList).symm ▸ hsplit
  | .text content :: .text other :: segments, h =>
    absurd rfl ((isMaximal_text_cons_iff.mp h).2.1 other)
  | .text content :: .placeholder name :: segments, h => by
    obtain ⟨hfilled, -, hlast, hbehind⟩ := isMaximal_text_cons_iff.mp h
    obtain ⟨hname, hrest⟩ := isMaximal_placeholder_cons_iff.mp hbehind
    have hbefore : '\x7b' ∉ content.toList := by
      intro hmem
      obtain ⟨before, after, heq⟩ := List.append_of_mem hmem
      cases (hlast before after heq).1
    have hsplit := IsSplit.textBefore (mt String.toList_eq_nil_iff.mp hfilled) hbefore hname
      hrest.isSplit
    rw [String.ofList_toList, String.ofList_toList] at hsplit
    rw [toList_spelled_text, toList_spelled_placeholder]
    exact hsplit

/-! ## Cutting by offsets -/

/-- What is between two offsets in an encoded text.  The offsets have to be in order, and none of them
may be inside a character or behind the end. -/
def between? (text : String) (start stop : Nat) : Option String :=
  if h : start ≤ stop ∧ String.Pos.Raw.IsValid text ⟨start⟩ ∧ String.Pos.Raw.IsValid text ⟨stop⟩ then
    some (String.extract ⟨⟨start⟩, h.2.1⟩ ⟨⟨stop⟩, h.2.2⟩)
  else none

/-- Where a character comes first in an encoded text. -/
def offsetOf? (c : Char) (text : String) : Option Nat :=
  (text.find? c).map fun position => position.offset.byteIdx

/-- A text with a placeholder in it. -/
structure Cut where
  before : String
  name : String
  rest : String

/-- Cuts a text at its first placeholder.  The result is `some none` if it has no placeholder, and `none`
if it cannot be cut at an offset. -/
def cut? (text : String) : Option (Option Cut) :=
  match offsetOf? '\x7b' text with
  | none => some none
  | some opening => do
    let tail ← between? text opening text.utf8ByteSize
    match offsetOf? '\x7d' tail with
    | none => some none
    | some distance =>
      let closing := opening + distance
      let before ← between? text 0 opening
      let name ← between? text (opening + 1) closing
      let rest ← between? text (closing + 1) text.utf8ByteSize
      some (some ⟨before, name, rest⟩)

theorem utf8ByteSize_of_between? {text part : String} {start stop : Nat}
    (hpart : between? text start stop = some part) :
    start + part.utf8ByteSize = stop ∧ stop ≤ text.utf8ByteSize := by
  by_cases hvalid : start ≤ stop ∧ String.Pos.Raw.IsValid text ⟨start⟩ ∧
      String.Pos.Raw.IsValid text ⟨stop⟩
  · rw [between?, dif_pos hvalid, Option.some_inj] at hpart
    have horder := hvalid.1
    have hend : stop ≤ text.utf8ByteSize := hvalid.2.2.le_utf8ByteSize
    rw [← hpart, ← String.size_toByteArray, String.toByteArray_extract, ByteArray.size_extract,
      String.size_toByteArray]
    dsimp only
    exact ⟨by omega, hend⟩
  · rw [between?, dif_neg hvalid] at hpart
    cases hpart

/-- Behind a placeholder less is left. -/
theorem utf8ByteSize_rest_lt {text : String} {cut : Cut} (h : cut? text = some (some cut)) :
    cut.rest.utf8ByteSize < text.utf8ByteSize := by
  rw [cut?] at h
  split at h
  · cases h
  · obtain ⟨tail, -, h⟩ := Option.bind_eq_some_iff.mp h
    split at h
    · cases h
    · obtain ⟨before, -, h⟩ := Option.bind_eq_some_iff.mp h
      obtain ⟨name, -, h⟩ := Option.bind_eq_some_iff.mp h
      obtain ⟨rest, hrest, h⟩ := Option.bind_eq_some_iff.mp h
      have hsize := utf8ByteSize_of_between? hrest
      cases h
      dsimp only
      omega

/-- A text as a piece, if there is anything in it. -/
def piece (content : String) : List PathSegment :=
  if content.isEmpty then [] else [.text content]

/-- The pieces of a text, cut at one placeholder after another. -/
def cutByOffsets? (text : String) : Option (List PathSegment) :=
  match h : cut? text with
  | none => none
  | some none => some (piece text)
  | some (some cut) =>
    have := utf8ByteSize_rest_lt h
    (cutByOffsets? cut.rest).map fun segments =>
      piece cut.before ++ .placeholder cut.name :: segments
termination_by text.utf8ByteSize

theorem between?_eq_some {text part : String} {start stop : Nat} (before rest : String)
    (htext : text = before ++ part ++ rest) (hstart : start = before.utf8ByteSize)
    (hstop : stop = before.utf8ByteSize + part.utf8ByteSize) :
    between? text start stop = some part := by
  subst htext hstart hstop
  have hstart : String.Pos.Raw.IsValid (before ++ part ++ rest) ⟨before.utf8ByteSize⟩ :=
    String.Pos.Raw.isValid_iff_exists_append.mpr ⟨before, part ++ rest, String.append_assoc, rfl⟩
  have hstop : String.Pos.Raw.IsValid (before ++ part ++ rest)
      ⟨before.utf8ByteSize + part.utf8ByteSize⟩ := by
    refine String.Pos.Raw.isValid_iff_exists_append.mpr ⟨before ++ part, rest, rfl, ?_⟩
    rw [String.rawEndPos, String.utf8ByteSize_append]
  rw [between?, dif_pos ⟨Nat.le_add_right _ _, hstart, hstop⟩, Option.some_inj,
    ← String.toByteArray_inj, String.toByteArray_extract, String.toByteArray_append,
    String.toByteArray_append, ByteArray.append_assoc]
  calc (before.toByteArray ++ (part.toByteArray ++ rest.toByteArray)).extract
        before.toByteArray.size (before.toByteArray.size + part.toByteArray.size)
    _ = (part.toByteArray ++ rest.toByteArray).extract 0 part.toByteArray.size :=
        ByteArray.extract_append_size_add (i := 0)
    _ = part.toByteArray := ByteArray.extract_append_eq_left rfl

theorem offsetOf?_eq_some {text before : String} {c : Char} (rest : String)
    (htext : text = before ++ String.singleton c ++ rest) (h : c ∉ before.toList) :
    offsetOf? c text = some before.utf8ByteSize := by
  rw [String.append_assoc] at htext
  have hsplits := String.Pos.splits_ofEqAppend htext
  rw [offsetOf?, String.find?_char_eq_some_iff_splits.mpr ⟨before, rest, hsplits, h⟩,
    Option.map_some, hsplits.offset_eq_rawEndPos]
  rfl

theorem offsetOf?_eq_none {c : Char} {text : String} (h : c ∉ text.toList) :
    offsetOf? c text = none := by
  rw [offsetOf?, Option.map_eq_none_iff]
  cases hfind : text.find? c with
  | none => rfl
  | some position =>
    obtain ⟨before, rest, hsplits, -⟩ := String.find?_char_eq_some_iff_splits.mp hfind
    rw [hsplits.eq_append] at h
    simp at h

section Cutting

variable {text before name rest : String}

/-- The first brace that opens is found, and the text can be cut in front of it. -/
theorem opening_eq (htext : text = before ++ (String.singleton '\x7b' ++ rest))
    (h : '\x7b' ∉ before.toList) :
    offsetOf? '\x7b' text = some before.utf8ByteSize ∧
      between? text before.utf8ByteSize text.utf8ByteSize =
        some (String.singleton '\x7b' ++ rest) := by
  refine ⟨offsetOf?_eq_some rest (by rw [htext, String.append_assoc]) h, ?_⟩
  refine between?_eq_some before "" (by rw [htext, String.append_empty]) rfl ?_
  rw [htext, String.utf8ByteSize_append]

/-- Text, a placeholder, and what is behind it. -/
theorem cut?_eq_some
    (htext : text =
      before ++ (String.singleton '\x7b' ++ (name ++ (String.singleton '\x7d' ++ rest))))
    (hbefore : '\x7b' ∉ before.toList) (hname : '\x7d' ∉ name.toList) :
    cut? text = some (some ⟨before, name, rest⟩) := by
  have hopens : (String.singleton '\x7b').utf8ByteSize = 1 := rfl
  have hcloses : (String.singleton '\x7d').utf8ByteSize = 1 := rfl
  obtain ⟨hopening, htail⟩ := opening_eq htext hbefore
  have hdistance : offsetOf? '\x7d'
      (String.singleton '\x7b' ++ (name ++ (String.singleton '\x7d' ++ rest))) =
        some (String.singleton '\x7b' ++ name).utf8ByteSize :=
    offsetOf?_eq_some rest (by simp only [String.append_assoc]) (by simpa using hname)
  have hfront : between? text 0 before.utf8ByteSize = some before := by
    refine between?_eq_some "" _ (by rw [htext, String.empty_append]) rfl ?_
    rw [String.utf8ByteSize_empty, Nat.zero_add]
  have hmiddle : between? text (before.utf8ByteSize + 1)
      (before.utf8ByteSize + (String.singleton '\x7b' ++ name).utf8ByteSize) = some name := by
    refine between?_eq_some (before ++ String.singleton '\x7b')
      (String.singleton '\x7d' ++ rest) ?_ ?_ ?_
    · simp only [htext, String.append_assoc]
    · rw [String.utf8ByteSize_append, hopens]
    · simp only [String.utf8ByteSize_append, Nat.add_assoc]
  have hback : between? text (before.utf8ByteSize +
      (String.singleton '\x7b' ++ name).utf8ByteSize + 1) text.utf8ByteSize = some rest := by
    refine between?_eq_some
      (before ++ (String.singleton '\x7b' ++ name) ++ String.singleton '\x7d') "" ?_ ?_ ?_
    · simp only [htext, String.append_empty, String.append_assoc]
    · simp only [String.utf8ByteSize_append, hcloses]
    · simp only [htext, String.utf8ByteSize_append, Nat.add_assoc]
  rw [cut?, hopening]
  simp only [htail, hdistance, hfront, hmiddle, hback, Option.bind_eq_bind, Option.bind_some]

/-- Without a brace that opens and one that closes behind it, there is no placeholder. -/
theorem cut?_of_unclosed (h : Unclosed text.toList) : cut? text = some none := by
  by_cases hopen : '\x7b' ∈ text.toList
  · obtain ⟨before, after, heq, hbefore⟩ := List.eq_append_cons_of_mem hopen
    have hclosed := unclosed_iff.mp h before after heq
    have htext : text =
        String.ofList before ++ (String.singleton '\x7b' ++ String.ofList after) := by
      rw [← String.toList_inj, heq]
      simp
    obtain ⟨hopening, htail⟩ := opening_eq htext (by rwa [String.toList_ofList])
    have hnone : offsetOf? '\x7d' (String.singleton '\x7b' ++ String.ofList after) = none :=
      offsetOf?_eq_none (by simpa using hclosed)
    rw [cut?, hopening]
    simp only [htail, hnone, Option.bind_eq_bind, Option.bind_some]
  · rw [cut?, offsetOf?_eq_none hopen]

theorem cutByOffsets?_of_unclosed (h : Unclosed text.toList) :
    cutByOffsets? text = some (piece text) := by
  rw [cutByOffsets?]
  split
  next hcut => cases (cut?_of_unclosed h).symm.trans hcut
  next => rfl
  next hcut => cases (cut?_of_unclosed h).symm.trans hcut

theorem cutByOffsets?_of_cut? {cut : Cut} (h : cut? text = some (some cut)) :
    cutByOffsets? text = (cutByOffsets? cut.rest).map fun segments =>
      piece cut.before ++ .placeholder cut.name :: segments := by
  rw [cutByOffsets?]
  split
  next hcut => cases h.symm.trans hcut
  next hcut => cases h.symm.trans hcut
  next hcut =>
    cases h.symm.trans hcut
    rfl

end Cutting

theorem piece_eq {content : String} (h : content ≠ "") : piece content = [.text content] := by
  rw [piece, if_neg (mt String.isEmpty_iff.mp h)]

/-- One step: a placeholder is cut off, with the text in front of it. -/
theorem cutByOffsets?_append {before name cs : List Char} {segments : List PathSegment}
    (hbefore : '\x7b' ∉ before) (hname : '\x7d' ∉ name)
    (h : cutByOffsets? (String.ofList cs) = some segments) :
    cutByOffsets? (String.ofList (before ++ '\x7b' :: (name ++ '\x7d' :: cs))) =
      some (piece (String.ofList before) ++ .placeholder (String.ofList name) :: segments) := by
  have hcut : cut? (String.ofList (before ++ '\x7b' :: (name ++ '\x7d' :: cs))) =
      some (some ⟨String.ofList before, String.ofList name, String.ofList cs⟩) := by
    refine cut?_eq_some ?_ (by rwa [String.toList_ofList]) (by rwa [String.toList_ofList])
    rw [← String.toList_inj]
    simp
  rw [cutByOffsets?_of_cut? hcut, h, Option.map_some]

/-- All steps: what is cut are the pieces of a split. -/
theorem IsSplit.cutByOffsets?_eq {cs : List Char} {segments : List PathSegment}
    (h : IsSplit cs segments) : cutByOffsets? (String.ofList cs) = some segments := by
  induction h with
  | nil => exact cutByOffsets?_of_unclosed List.not_mem_nil
  | text hne h =>
    rw [cutByOffsets?_of_unclosed (by rwa [String.toList_ofList]), piece_eq (by simpa using hne)]
  | placeholder hname _ ih => exact cutByOffsets?_append List.not_mem_nil hname ih
  | textBefore hne hbefore hname _ ih =>
    rw [cutByOffsets?_append hbefore hname ih, piece_eq (by simpa using hne)]
    rfl

/-- **The pieces of a path** are found by cutting at offsets, which never fails.  They spell the path and
are cut as far as can be, and there are no others of which this is true. -/
theorem ofPath_lossless (path : String) :
    cutByOffsets? path = some (ofPath path) ∧
      ∀ segments, segments = ofPath path ↔ spelled segments = path ∧ IsMaximal segments := by
  have hsplit : IsSplit path.toList (ofPath path) := isSplit_iff.mpr rfl
  refine ⟨?_, fun segments => ?_⟩
  · have hcut := hsplit.cutByOffsets?_eq
    rwa [String.ofList_toList] at hcut
  · rw [← isSplit_iff]
    constructor
    · intro h
      obtain ⟨hspelled, hmaximal⟩ := h.isMaximal
      exact ⟨String.toList_inj.mp hspelled, hmaximal⟩
    · rintro ⟨rfl, h⟩
      exact h.isSplit

/-- Braces inside braces, with nothing between them, the wrong way round and left open. -/
example : ofPath "/é\x7ba\x7bb\x7d\x7b\x7d\x7d/\x7bc" =
    [.text "/é", .placeholder "a\x7bb", .placeholder "", .text "\x7d/\x7bc"] := by
  decide +kernel

end ApiScribe.PathSegment
