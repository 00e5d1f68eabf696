import ApiScribe.Proofs.EscapedSteps
import ApiScribe.Proofs.MemberNames

/-!
# Names made up for operations

An operation without a name of its own is named after its method and its path.  Everything but letters and
digits is dropped from the path, and every word gets a capital; what comes out is made an identifier like
any other name.  So the name of the method that calls the operation begins with the request method in
small letters, and what follows is `spelledPath`, a text that does not depend on the method.

No request method begins like another one, so the method can be read off the name.  The path cannot:
`identifier_synthesizedId_eq_iff` says that two names are the same exactly if the methods are and the
paths are spelled alike.  Paths with the same words always are.  Conversely the words can be read off the
spelling if a capital stands at the beginning of each and nowhere else (`spelledPath_eq_iff`).
-/

namespace ApiScribe

open Text Naming

/-! ## Pieces -/

namespace Text

/-- Text in front without separators belongs to the first piece. -/
theorem pieces_append {p : Char → Bool} {front : List Char} (h : ∀ c ∈ front, p c = false)
    {cs first : List Char} {rest : List (List Char)} (hpieces : pieces p cs = first :: rest) :
    pieces p (front ++ cs) = (front ++ first) :: rest := by
  induction front with
  | nil => exact hpieces
  | cons c front ih =>
    obtain ⟨hc, hfront⟩ := List.forall_mem_cons.mp h
    have hne : ¬ p c = true := by rw [hc]; exact Bool.false_ne_true
    rw [List.cons_append, pieces, if_neg hne, ih hfront]
    rfl

theorem pieces_ne_nil (p : Char → Bool) (cs : List Char) : pieces p cs ≠ [] := by
  rw [pieces_eq_splitOnP]
  exact List.splitOnP_ne_nil p cs

end Text

namespace Naming

/-- Empty words have no part in what is joined, behind the first one. -/
theorem flatMap_capitalizeChars_filter (words : List (List Char)) :
    (words.filter fun word => !word.isEmpty).flatMap capitalizeChars =
      words.flatMap capitalizeChars := by
  induction words with
  | nil => rfl
  | cons word words ih =>
    cases word with
    | nil => exact ih
    | cons c cs =>
      have hkept : ((c :: cs) :: words).filter (fun word => !word.isEmpty) =
          (c :: cs) :: words.filter fun word => !word.isEmpty := rfl
      rw [hkept, List.flatMap_cons, List.flatMap_cons, ih]

/-- A text that begins with a word is joined with this word in front. -/
theorem joinWords_words_append {p : Char → Bool} {front : List Char} (hne : front ≠ [])
    (h : ∀ c ∈ front, p c = false) (cs : List Char) :
    joinWords (words p (front ++ cs)) = front ++ joinWords (pieces p cs) := by
  obtain ⟨first, rest, hpieces⟩ := List.exists_cons_of_ne_nil (pieces_ne_nil p cs)
  obtain ⟨c, front, rfl⟩ := List.exists_cons_of_ne_nil hne
  have hwords : words p (c :: front ++ cs) =
      (c :: front ++ first) :: rest.filter fun word => !word.isEmpty := by
    rw [words, pieces_append h hpieces]
    rfl
  rw [hwords, hpieces, joinWords, joinWords, flatMap_capitalizeChars_filter, List.append_assoc]

end Naming

/-! ## Methods -/

namespace HttpMethod

/-- The method in small letters. -/
def small (method : HttpMethod) : List Char :=
  asciiLowerText method.text.toList

/-- Methods are words that begin with small letters. -/
theorem small_isWord (method : HttpMethod) :
    (∃ c cs, method.small = c :: cs ∧ c ∈ smallLetters) ∧ ∀ c ∈ method.small, isSeparator c = false := by
  have hseparator : method.small.Forall fun c => isSeparator c = false := by
    cases method <;> decide +kernel
  refine ⟨?_, List.forall_iff_forall_mem.mp hseparator⟩
  cases method <;> exact ⟨_, _, rfl, by decide +kernel⟩

/-- No method begins like another one. -/
theorem eq_of_prefix_small {first second : HttpMethod} (h : first.small <+: second.small) :
    first = second := by
  revert h
  cases first <;> cases second <;> decide +kernel

/-- **A method in front of a text** can be told apart from the text. -/
theorem small_append_inj {first second : HttpMethod} {cs others : List Char}
    (h : first.small ++ cs = second.small ++ others) : first = second ∧ cs = others := by
  have hfirst : first.small <+: second.small ++ others := h ▸ List.prefix_append _ _
  have hsecond : second.small <+: second.small ++ others := List.prefix_append _ _
  obtain rfl : first = second := by
    rcases List.prefix_or_prefix_of_prefix hfirst hsecond with hprefix | hprefix
    · exact eq_of_prefix_small hprefix
    · exact (eq_of_prefix_small hprefix).symm
  exact ⟨rfl, List.append_cancel_left h⟩

end HttpMethod

/-! ## Identifiers -/

namespace Naming

/-- An identifier is what is joined, with an underscore in front if it is a reserved word. -/
theorem identifier_of_small {name : String} {c : Char} {cs : List Char}
    (h : joinWords (words isSeparator name.toList) = c :: cs) (hc : c ∈ smallLetters) :
    identifier name = if isReserved (String.ofList (c :: cs)) then "_" ++ String.ofList (c :: cs)
      else String.ofList (c :: cs) := by
  have hall : smallLetters.Forall fun c => isAsciiDigit c = false := by decide +kernel
  have hdigit : startsWithDigit (c :: cs) = false := List.forall_iff_forall_mem.mp hall c hc
  rw [identifier, h]
  simp only [hdigit, Bool.false_eq_true, if_false]

/-- Names that begin with small letters become different identifiers if what is joined differs. -/
theorem identifier_eq_iff {first second : String} {c d : Char} {cs ds : List Char}
    (hfirst : joinWords (words isSeparator first.toList) = c :: cs) (hc : c ∈ smallLetters)
    (hsecond : joinWords (words isSeparator second.toList) = d :: ds) (hd : d ∈ smallLetters) :
    identifier first = identifier second ↔ c :: cs = d :: ds := by
  have hmarked : ∀ {e : Char} {es : List Char}, e ∈ smallLetters → ∀ others,
      "_".toList ++ others ≠ e :: es := by
    intro e es he others heq
    have hsame : '_' = e := (List.cons.inj heq).1
    exact absurd (hsame ▸ he) (by decide : '_' ∉ smallLetters)
  rw [identifier_of_small hfirst hc, identifier_of_small hsecond hd]
  constructor
  · intro h
    have hlists := congrArg String.toList h
    split at hlists <;> split at hlists <;>
      simp only [String.toList_append, String.toList_ofList] at hlists
    · exact List.append_cancel_left hlists
    · exact absurd hlists (hmarked hd _)
    · exact absurd hlists.symm (hmarked hc _)
    · exact hlists
  · intro h
    rw [h]

end Naming

/-! ## Spelled paths -/

namespace Operation

/-- What the name of an operation has of its path: its words with capitals.  A capital may come with marks
that are no letters; they are dropped, and there is a capital behind them. -/
def spelledPath (path : String) : List Char :=
  joinWords (pieces isSeparator ((words isGap path.toList).flatMap capitalizeChars))

/-- The words of the made up name: the method and the spelled path in one. -/
theorem joinWords_synthesizedId (method : HttpMethod) (path : String) :
    joinWords (words isSeparator (synthesizedId method path).toList) =
      method.small ++ spelledPath path := by
  obtain ⟨⟨c, cs, hsmall, -⟩, hword⟩ := method.small_isWord
  have hne : method.small ≠ [] := by
    rw [hsmall]
    exact List.cons_ne_nil c cs
  rw [synthesizedId, String.toList_ofList]
  exact joinWords_words_append hne hword _

/-- **When made up names are the same**: the methods are, and the paths are spelled alike. -/
theorem identifier_synthesizedId_eq_iff {first second : HttpMethod} {path other : String} :
    identifier (synthesizedId first path) = identifier (synthesizedId second other) ↔
      first = second ∧ spelledPath path = spelledPath other := by
  obtain ⟨⟨c, cs, hfirst, hc⟩, -⟩ := first.small_isWord
  obtain ⟨⟨d, ds, hsecond, hd⟩, -⟩ := second.small_isWord
  have hleft := joinWords_synthesizedId first path
  have hright := joinWords_synthesizedId second other
  rw [hfirst, List.cons_append] at hleft
  rw [hsecond, List.cons_append] at hright
  rw [identifier_eq_iff hleft hc hright hd, ← List.cons_append, ← List.cons_append, ← hfirst, ← hsecond]
  constructor
  · exact HttpMethod.small_append_inj
  · rintro ⟨rfl, hspelled⟩
    rw [hspelled]

/-! ## Plain paths -/

/-- The letters of ASCII. -/
def letters : List Char :=
  smallLetters ++ "ABCDEFGHIJKLMNOPQRSTUVWXYZ".toList

/-- A word that begins with a letter and has small letters and digits behind it. -/
def IsPlainWord (word : List Char) : Prop :=
  ∃ c cs, word = c :: cs ∧ c ∈ letters ∧ ∀ d ∈ cs, d ∈ smallCharacters

/-- All words of the path are plain. -/
def IsPlainPath (path : String) : Prop :=
  ∀ word ∈ words isGap path.toList, IsPlainWord word

/-- A capital at the beginning, and none behind it. -/
def IsCapitalized (word : List Char) : Prop :=
  ∃ c cs, word = c :: cs ∧ isAsciiUpper c = true ∧ ∀ d ∈ cs, isAsciiUpper d = false

/-- What becomes of a letter. -/
theorem upper_of_mem_letters {c : Char} (h : c ∈ letters) :
    upper c = [asciiUpper c] ∧ isAsciiUpper (asciiUpper c) = true ∧
      isSeparator (asciiUpper c) = false := by
  have hall : letters.Forall fun c => upper c = [asciiUpper c] ∧ isAsciiUpper (asciiUpper c) = true ∧
      isSeparator (asciiUpper c) = false := by
    decide +kernel
  exact List.forall_iff_forall_mem.mp hall c h

theorem isSeparator_of_mem_smallCharacters {c : Char} (h : c ∈ smallCharacters) :
    isSeparator c = false := by
  have hall : smallCharacters.Forall fun c => isSeparator c = false := by decide +kernel
  exact List.forall_iff_forall_mem.mp hall c h

/-- A plain word with a capital is capitalized, and has no separators. -/
theorem IsPlainWord.capitalized {word : List Char} (h : IsPlainWord word) :
    IsCapitalized (capitalizeChars word) ∧ ∀ c ∈ capitalizeChars word, isSeparator c = false := by
  obtain ⟨c, cs, rfl, hc, hcs⟩ := h
  obtain ⟨hupper, hcapital, hseparator⟩ := upper_of_mem_letters hc
  rw [capitalizeChars, hupper]
  refine ⟨⟨_, cs, rfl, hcapital, fun d hd => ?_⟩, List.forall_mem_cons.mpr ⟨hseparator, fun d hd => ?_⟩⟩
  · exact (of_mem_smallCharacters (hcs d hd)).2.2.1
  · exact isSeparator_of_mem_smallCharacters (hcs d hd)

/-- A word goes on to the next capital, or to the end. -/
theorem takeWhile_word {cs : List Char} {rest : List (List Char)}
    (hcs : ∀ d ∈ cs, isAsciiUpper d = false) (hrest : ∀ word ∈ rest, IsCapitalized word) :
    (cs ++ rest.flatten).takeWhile (fun d => !isAsciiUpper d) = cs := by
  have hkept : ∀ d ∈ cs, (!isAsciiUpper d) = true := by
    intro d hd
    rw [hcs d hd]
    rfl
  rw [List.takeWhile_append_of_pos hkept]
  cases rest with
  | nil => rw [List.flatten_nil, List.takeWhile_nil, List.append_nil]
  | cons next rest =>
    obtain ⟨d, ds, rfl, hd, -⟩ := hrest next List.mem_cons_self
    have hstop : (d :: ds ++ rest.flatten).takeWhile (fun d => !isAsciiUpper d) = [] := by
      simp [hd]
    rw [List.flatten_cons, hstop, List.append_nil]

/-- **Capitals tell where words begin**, so capitalized words can be read off the text that they make. -/
theorem eq_of_flatten_eq {words others : List (List Char)} (hwords : ∀ word ∈ words, IsCapitalized word)
    (hothers : ∀ word ∈ others, IsCapitalized word) (h : words.flatten = others.flatten) :
    words = others := by
  induction words generalizing others with
  | nil =>
    cases others with
    | nil => rfl
    | cons other others =>
      obtain ⟨c, cs, rfl, -, -⟩ := hothers other List.mem_cons_self
      cases h
  | cons word words ih =>
    obtain ⟨⟨c, cs, rfl, -, hcs⟩, hrest⟩ := List.forall_mem_cons.mp hwords
    cases others with
    | nil => cases h
    | cons other others =>
      obtain ⟨⟨d, ds, rfl, -, hds⟩, hafter⟩ := List.forall_mem_cons.mp hothers
      rw [List.flatten_cons, List.flatten_cons, List.cons_append, List.cons_append] at h
      obtain ⟨rfl, hbehind⟩ := List.cons.inj h
      have hsame : cs = ds := by
        rw [← takeWhile_word hcs hrest, hbehind, takeWhile_word hds hafter]
      subst hsame
      rw [ih hrest hafter (List.append_cancel_left hbehind)]

/-- The spelling of a plain path is that of its words, one after the other. -/
theorem spelledPath_of_isPlainPath {path : String} (h : IsPlainPath path) :
    spelledPath path = ((words isGap path.toList).map capitalizeChars).flatten := by
  have hfree : ∀ c ∈ (words isGap path.toList).flatMap capitalizeChars, isSeparator c = false := by
    intro c hc
    obtain ⟨word, hword, hc⟩ := List.mem_flatMap.mp hc
    exact (h word hword).capitalized.2 c hc
  rw [spelledPath, pieces_eq_singleton hfree, joinWords, List.flatMap_nil, List.append_nil,
    List.flatMap_def]

/-- **Plain paths are spelled alike** exactly if they have the same words, up to the case in which a word
begins. -/
theorem spelledPath_eq_iff {path other : String} (h : IsPlainPath path) (hother : IsPlainPath other) :
    spelledPath path = spelledPath other ↔
      (words isGap path.toList).map capitalizeChars =
        (words isGap other.toList).map capitalizeChars := by
  have hcapitalized : ∀ {path}, IsPlainPath path →
      ∀ word ∈ (words isGap path.toList).map capitalizeChars, IsCapitalized word := by
    intro path hplain word hword
    obtain ⟨plain, hmem, rfl⟩ := List.mem_map.mp hword
    exact (hplain plain hmem).capitalized.1
  rw [spelledPath_of_isPlainPath h, spelledPath_of_isPlainPath hother]
  constructor
  · exact eq_of_flatten_eq (hcapitalized h) (hcapitalized hother)
  · exact congrArg List.flatten

end Operation

end ApiScribe
