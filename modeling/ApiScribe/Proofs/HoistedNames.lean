import ApiScribe.Proofs.CaseMappings
import ApiScribe.Proofs.GenerationRun

/-!
# What hoisted enumerations are called

An enumeration inside a declaration is hoisted under the name of its place: the name of the shape,
and behind it the names of the properties on the way, in Pascal case.  If that name is taken, digits
are put behind it.  So the name of a hoisted enumeration begins like the name of a shape
(`Run.exists_shapeName`).

What comes behind is a word, and not one of small letters only, because a name in Pascal case begins
with a capital or with a character outside ASCII (`Naming.exists_not_isSmall_of_pascalChars`).  It is
not empty either: then the enumeration would be called like the shape, and that name is taken.
-/

namespace ApiScribe

/-! ## Capitals -/

namespace Text

/-- Small letters of ASCII. -/
def IsSmall (c : Char) : Prop :=
  97 ≤ c.toNat ∧ c.toNat ≤ 122

instance (c : Char) : Decidable (IsSmall c) :=
  inferInstanceAs (Decidable (_ ∧ _))

variable {c d : Char}

theorem not_isSmall_of_mem_upper (h : d ∈ upper c) : ¬ IsSmall d := by
  rintro ⟨hlow, hhigh⟩
  rcases of_mem_upper h with ⟨-, hsmall⟩ | hcapital | hother
  · exact hsmall ⟨hlow, hhigh⟩
  · omega
  · omega

theorem not_isSmall_of_isDigit (h : c.isDigit = true) : ¬ IsSmall c := by
  rintro ⟨hlow, -⟩
  have hdigit := (between_iff '0' '9' c).mp h
  simp only [Char.reduceToNat] at hdigit
  omega

theorem capitalExpansions_ne_nil :
    capitalExpansions.all (fun expansion => !expansion.2.isEmpty) = true := by
  decide +kernel

/-- Every character has a capital. -/
theorem upper_ne_nil (c : Char) : upper c ≠ [] := by
  rw [upper]
  split
  · exact List.cons_ne_nil _ _
  · split
    next expansion hexpansion =>
      have hne := List.all_eq_true.mp capitalExpansions_ne_nil _
        (mem_of_lookup_capitalExpansions hexpansion)
      intro hnil
      rw [List.map_eq_nil_iff.mp hnil] at hne
      cases hne
    next => exact List.cons_ne_nil _ _

end Text

namespace Naming

open Text

/-- **A name in Pascal case does not consist of small letters.** -/
theorem exists_not_isSmall_of_pascalChars {cs : List Char} (h : pascalChars cs ≠ []) :
    ∃ d ∈ pascalChars cs, ¬ IsSmall d := by
  have hwords : words isGap cs ≠ [] := fun hnil => h (by rw [pascalChars, hnil, List.flatMap_nil])
  obtain ⟨word, hword⟩ := List.exists_mem_of_ne_nil _ hwords
  cases word with
  | nil => exact absurd rfl (of_mem_words hword).1
  | cons c rest =>
    obtain ⟨d, hd⟩ := List.exists_mem_of_ne_nil _ (upper_ne_nil c)
    refine ⟨d, List.mem_flatMap.mpr ⟨c :: rest, hword, ?_⟩, not_isSmall_of_mem_upper hd⟩
    rw [pascalWord]
    exact List.mem_append_left _ hd

/-- Reserved words consist of small letters. -/
theorem isReserved_eq_false {name : String} (h : ∃ c ∈ name.toList, ¬ IsSmall c) :
    isReserved name = false := by
  obtain ⟨c, hc, hsmall⟩ := h
  have hwords : ∀ word ∈ reservedWords, word.toList.Forall IsSmall := by decide +kernel
  rw [isReserved, ← Bool.not_eq_true, List.contains_iff_mem]
  exact fun hmem => hsmall (List.forall_iff_forall_mem.mp (hwords name hmem) c hc)

end Naming

open Text

/-! ## Places -/

/-- What the name of a place has behind the name of the declaration is a word, and unless it is empty
there is a character in it that is no small letter. -/
theorem Shape.IsPlaceIn.exists_rest {parent place : String} (h : IsPlaceIn parent place) :
    ∃ rest, place.toList = parent.toList ++ rest ∧ (∀ c ∈ rest, IsWordChar c) ∧
      (rest ≠ [] → ∃ c ∈ rest, ¬ IsSmall c) := by
  have hpascal : ∀ property : String,
      (∀ c ∈ (Naming.pascalCase property).toList, IsWordChar c) ∧
      ((Naming.pascalCase property).toList ≠ [] →
        ∃ c ∈ (Naming.pascalCase property).toList, ¬ IsSmall c) := by
    intro property
    rw [Naming.pascalCase, String.toList_ofList]
    exact ⟨fun c hc => Naming.isWordChar_of_mem_pascalChars hc,
      Naming.exists_not_isSmall_of_pascalChars⟩
  induction h with
  | property property =>
    refine ⟨(Naming.pascalCase property).toList, ?_, hpascal property⟩
    rw [placeName, String.toList_append]
  | inner _ property ih =>
    obtain ⟨rest, heq, hword, hsmall⟩ := ih
    obtain ⟨hword', hsmall'⟩ := hpascal property
    refine ⟨rest ++ (Naming.pascalCase property).toList, ?_, ?_, fun hne => ?_⟩
    · rw [placeName, String.toList_append, heq, List.append_assoc]
    · exact List.forall_mem_append.mpr ⟨hword, hword'⟩
    · rcases not_and_or.mp (mt List.append_eq_nil_iff.mpr hne) with hne | hne
      · obtain ⟨c, hc, hno⟩ := hsmall hne
        exact ⟨c, List.mem_append_left _ hc, hno⟩
      · obtain ⟨c, hc, hno⟩ := hsmall' hne
        exact ⟨c, List.mem_append_right _ hc, hno⟩

/-! ## The names of hoisted enumerations -/

namespace Progress

/-- The hoisted enumerations are called like places in the shapes, with or without digits. -/
def NamedAfter (shapeNames : List String) (progress : Progress) : Prop :=
  ∀ inline ∈ progress.inlineEnums, ∃ shape ∈ shapeNames, ∃ place number,
    Shape.IsPlaceIn shape place ∧ inline.name = Naming.candidate place number

theorem namedAfter_empty (shapeNames : List String) : NamedAfter shapeNames {} :=
  nofun

theorem stable_namedAfter (shapeNames : List String) :
    Session.Stable fun before after : Progress =>
      before.NamedAfter shapeNames → after.NamedAfter shapeNames where
  refl _ := id
  trans h h' := h' ∘ h
  report _ _ h := h
  subject _ _ h := h

/-- Hoisting under the name of a place keeps it so. -/
theorem NamedAfter.hoist {shapeNames : List String} {progress : Progress}
    (h : progress.NamedAfter shapeNames) {shape place : String} (hshape : shape ∈ shapeNames)
    (hplace : Shape.IsPlaceIn shape place) (values : List EnumValue) :
    (progress.hoist shapeNames place values).2.NamedAfter shapeNames := by
  have hname : (progress.hoist shapeNames place values).1 =
      progress.hoistedName shapeNames place values := by
    rw [hoist_eq]
  rcases hoist_cases (Prod.eta (progress.hoist shapeNames place values)).symm with
    ⟨_, _, _, _, heq⟩ | ⟨-, -, heq⟩
  · rw [heq]
    exact h
  · rw [heq, hname]
    intro inline hmem
    rw [withInlineEnum_inlineEnums] at hmem
    rcases List.mem_append.mp hmem with hmem | hmem
    · exact h inline hmem
    · rw [List.mem_singleton.mp hmem]
      exact ⟨shape, hshape, place, _, hplace, rfl⟩

end Progress

namespace Output

variable {document : Document} {settings : Settings} {output : Output}

theorem Run.namedAfter (run : Run document settings output) :
    run.declared.NamedAfter run.scope.shapeNames := by
  refine (declarationsOf_keeps (Progress.stable_namedAfter run.scope.shapeNames) ?_).of_eq_ok
    run.declarations_eq (Progress.namedAfter_empty _)
  rintro named hnamed _ ⟨⟩ place hplace progress values h
  refine h.hoist ?_ hplace values
  rw [run.shapeNames_eq]
  exact List.mem_map_of_mem hnamed

/-- **The name of a hoisted enumeration begins like that of a shape.**  What comes behind is a word,
and in it is a character that is no small letter. -/
theorem Run.exists_shapeName (run : Run document settings output) {inline : InlineEnum}
    (hinline : inline ∈ run.declared.inlineEnums) :
    ∃ named ∈ document.namedShapes, ∃ rest, inline.name.toList = named.name.toList ++ rest ∧
      (∀ c ∈ rest, IsWordChar c) ∧ ∃ c ∈ rest, ¬ IsSmall c := by
  obtain ⟨shape, hshape, place, number, hplace, hname⟩ := run.namedAfter inline hinline
  obtain ⟨behind, hbehind, hword, hsmall⟩ := hplace.exists_rest
  obtain ⟨digits, hcandidate, hdigits, -⟩ := Naming.exists_toList_candidate place number
  have heq : inline.name.toList = shape.toList ++ (behind ++ digits) := by
    rw [hname, hcandidate, hbehind, List.append_assoc]
  have hnew := run.wellNamed.notMem inline hinline
  rw [run.shapeNames_eq] at hshape hnew
  obtain ⟨named, hnamed, rfl⟩ := List.mem_map.mp hshape
  refine ⟨named, hnamed, behind ++ digits, heq, ?_, ?_⟩
  · refine List.forall_mem_append.mpr ⟨hword, fun d hd => ?_⟩
    exact Or.inr (Or.inl (hdigits d hd))
  · cases digits with
    | cons d digits =>
      exact ⟨d, List.mem_append_right _ List.mem_cons_self,
        not_isSmall_of_isDigit (hdigits d List.mem_cons_self)⟩
    | nil =>
      rw [List.append_nil] at heq ⊢
      refine hsmall fun hnil => hnew ?_
      rw [hnil, List.append_nil] at heq
      rw [String.toList_injective heq]
      exact List.mem_map_of_mem hnamed

end Output

end ApiScribe
