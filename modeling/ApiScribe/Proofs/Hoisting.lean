import ApiScribe.Proofs.FreshNames
import ApiScribe.Proofs.SessionRun

/-!
# Hoisted enumerations

What `Progress.hoist` does to a progress, said once.  Either an enumeration of the name that is
handed out is there already and holds the values, and nothing changes, or the name belongs neither
to a shape nor to a hoisted enumeration, and one enumeration of that name is added
(`hoist_cases`).

From this follows the invariant `WellNamed`: the hoisted enumerations have different names, and
none has the name of a shape.
-/

namespace ApiScribe.Progress

variable {progress after : Progress} {shapeNames : List String} {values : List EnumValue}
  {requested name : String}

/-- The enumeration that is found under a name was hoisted and has that name. -/
theorem mem_of_inlineEnum? {inline : InlineEnum} (h : progress.inlineEnum? name = some inline) :
    inline ∈ progress.inlineEnums ∧ inline.name = name := by
  refine ⟨List.mem_of_find?_eq_some h, ?_⟩
  simpa only [decide_eq_true_eq] using List.find?_some h

theorem notMem_of_inlineEnum?_eq_none (h : progress.inlineEnum? name = none) :
    name ∉ progress.inlineEnums.map InlineEnum.name := by
  intro hmem
  obtain ⟨inline, hinline, rfl⟩ := List.mem_map.mp hmem
  have hno := List.find?_eq_none.mp h inline hinline
  simp only [decide_true, not_true_eq_false] at hno

/-- Only names of hoisted enumerations and of shapes are blocked. -/
theorem mem_of_blocks (h : progress.blocks shapeNames values name = true) :
    name ∈ progress.inlineEnums.map InlineEnum.name ++ shapeNames := by
  rw [blocks] at h
  split at h
  next inline hfound =>
    obtain ⟨hmem, rfl⟩ := mem_of_inlineEnum? hfound
    exact List.mem_append_left _ (List.mem_map_of_mem hmem)
  next => exact List.mem_append_right _ (List.contains_iff_mem.mp h)

/-- The name that an enumeration gets. -/
def hoistedName (progress : Progress) (shapeNames : List String) (requested : String)
    (values : List EnumValue) : String :=
  Naming.candidate requested
    (Naming.firstFree (progress.blocks shapeNames values) requested
      (progress.inlineEnums.length + shapeNames.length) 0)

/-- The progress after a new enumeration with the name `name` was asked to have the name
`requested`. -/
def withInlineEnum (progress : Progress) (requested name : String) (values : List EnumValue) :
    Progress :=
  let noted := if name = requested then progress
    else progress.report (.hoistedNameCollision requested name)
  { noted with inlineEnums := noted.inlineEnums ++ [{ name, values }] }

theorem hoist_eq (progress : Progress) (shapeNames : List String) (requested : String)
    (values : List EnumValue) :
    progress.hoist shapeNames requested values =
      (progress.hoistedName shapeNames requested values,
        match progress.inlineEnum? (progress.hoistedName shapeNames requested values) with
        | some _ => progress
        | none => progress.withInlineEnum requested
            (progress.hoistedName shapeNames requested values) values) := by
  show (match progress.inlineEnum? (progress.hoistedName shapeNames requested values) with
    | some _ => (progress.hoistedName shapeNames requested values, progress)
    | none => (progress.hoistedName shapeNames requested values,
        progress.withInlineEnum requested
          (progress.hoistedName shapeNames requested values) values)) = _
  cases progress.inlineEnum? (progress.hoistedName shapeNames requested values) <;> rfl

@[simp] theorem withInlineEnum_inlineEnums (progress : Progress) (requested name : String)
    (values : List EnumValue) :
    (progress.withInlineEnum requested name values).inlineEnums =
      progress.inlineEnums ++ [⟨name, values⟩] := by
  rw [withInlineEnum]
  split <;> rfl

/-- Hoisting reports about the subject, but hands out names without looking at it: they depend on
the enumerations that were hoisted before. -/
theorem hoist_congr {other : Progress} (h : progress.inlineEnums = other.inlineEnums)
    (shapeNames : List String) (requested : String) (values : List EnumValue) :
    (progress.hoist shapeNames requested values).1 = (other.hoist shapeNames requested values).1 ∧
      (progress.hoist shapeNames requested values).2.inlineEnums =
        (other.hoist shapeNames requested values).2.inlineEnums := by
  have hfound : progress.inlineEnum? = other.inlineEnum? := by
    funext name
    rw [inlineEnum?, inlineEnum?, h]
  have hname : progress.hoistedName shapeNames requested values =
      other.hoistedName shapeNames requested values := by
    have hblocks : progress.blocks shapeNames values = other.blocks shapeNames values := by
      funext name
      rw [blocks, blocks, hfound]
    rw [hoistedName, hoistedName, hblocks, h]
  rw [hoist_eq, hoist_eq, hname, hfound]
  refine ⟨rfl, ?_⟩
  cases other.inlineEnum? (other.hoistedName shapeNames requested values) with
  | some _ => exact h
  | none => simp only [withInlineEnum_inlineEnums, h]

/-- The name that an enumeration gets is not blocked for its values. -/
theorem not_blocks_hoistedName (progress : Progress) (shapeNames : List String)
    (requested : String) (values : List EnumValue) :
    progress.blocks shapeNames values (progress.hoistedName shapeNames requested values) =
      false := by
  refine Naming.not_blocked_firstFree (fun _ => mem_of_blocks) ?_
  simp only [List.length_append, List.length_map, Nat.le_refl]

/-- The name that an enumeration gets is the first candidate that is not blocked, so whatever agrees
on the candidates up to it gives the same name. -/
theorem hoistedName_eq {number : Nat}
    (hfree : progress.blocks shapeNames values (Naming.candidate requested number) = false)
    (hblocked : ∀ i < number,
      progress.blocks shapeNames values (Naming.candidate requested i) = true) :
    progress.hoistedName shapeNames requested values = Naming.candidate requested number := by
  have hstop := not_blocks_hoistedName progress shapeNames requested values
  rw [hoistedName] at hstop ⊢
  congr 1
  rcases Nat.lt_trichotomy (Naming.firstFree (progress.blocks shapeNames values) requested
      (progress.inlineEnums.length + shapeNames.length) 0) number with hlt | heq | hgt
  · rw [hblocked _ hlt] at hstop
    cases hstop
  · exact heq
  · rw [Naming.blocked_of_lt_firstFree (Nat.zero_le number) hgt] at hfree
    cases hfree

/-- The search ends after at most as many candidates as there are names that could be blocked. -/
theorem exists_number (progress : Progress) (shapeNames : List String) (requested : String)
    (values : List EnumValue) :
    ∃ number ≤ progress.inlineEnums.length + shapeNames.length,
      progress.hoistedName shapeNames requested values = Naming.candidate requested number ∧
      progress.blocks shapeNames values (Naming.candidate requested number) = false ∧
      ∀ i < number, progress.blocks shapeNames values (Naming.candidate requested i) = true := by
  refine ⟨Naming.firstFree (progress.blocks shapeNames values) requested
    (progress.inlineEnums.length + shapeNames.length) 0, ?_, rfl,
    not_blocks_hoistedName progress shapeNames requested values, fun i hi =>
      Naming.blocked_of_lt_firstFree (Nat.zero_le i) hi⟩
  have hle := Naming.firstFree_le (progress.blocks shapeNames values) requested
    (progress.inlineEnums.length + shapeNames.length) 0
  omega

/-- **The two outcomes of hoisting.**  An enumeration of the name is there with the same values, or
one is added under a name that neither a shape nor a hoisted enumeration has. -/
theorem hoist_cases (h : progress.hoist shapeNames requested values = (name, after)) :
    (∃ inline ∈ progress.inlineEnums, inline.name = name ∧
        EnumValue.sameList inline.values values = true ∧ after = progress) ∨
      (name ∉ shapeNames ∧ name ∉ progress.inlineEnums.map InlineEnum.name ∧
        after = progress.withInlineEnum requested name values) := by
  have hfree := not_blocks_hoistedName progress shapeNames requested values
  rw [hoist_eq, Prod.mk.injEq] at h
  obtain ⟨rfl, h⟩ := h
  rw [blocks] at hfree
  cases hfound : progress.inlineEnum? (progress.hoistedName shapeNames requested values) with
  | some inline =>
    rw [hfound] at h hfree
    obtain ⟨hmem, hname⟩ := mem_of_inlineEnum? hfound
    have hsame : EnumValue.sameList inline.values values = true := by simpa using hfree
    exact Or.inl ⟨inline, hmem, hname, hsame, h.symm⟩
  | none =>
    rw [hfound] at h hfree
    have hshape : progress.hoistedName shapeNames requested values ∉ shapeNames := by
      intro hmem
      exact absurd (List.contains_iff_mem.mpr hmem) (ne_true_of_eq_false hfree)
    exact Or.inr ⟨hshape, notMem_of_inlineEnum?_eq_none hfound, h.symm⟩

/-- An enumeration with the name that is handed out and with the values is there afterwards. -/
theorem exists_mem_hoist (h : progress.hoist shapeNames requested values = (name, after)) :
    ∃ inline ∈ after.inlineEnums, inline.name = name ∧
      (inline.values = values ∨ EnumValue.sameList inline.values values = true) := by
  rcases hoist_cases h with ⟨inline, hmem, hname, hsame, rfl⟩ | ⟨-, -, rfl⟩
  · exact ⟨inline, hmem, hname, Or.inr hsame⟩
  · refine ⟨{ name, values }, ?_, rfl, Or.inl rfl⟩
    rw [withInlineEnum_inlineEnums]
    exact List.mem_append_right _ (List.mem_singleton_self _)

theorem le_withInlineEnum (progress : Progress) (requested name : String)
    (values : List EnumValue) : progress ≤ progress.withInlineEnum requested name values := by
  rw [withInlineEnum]
  split
  · exact ⟨List.prefix_append _ _, List.prefix_rfl, List.prefix_rfl⟩
  · exact ⟨List.prefix_append _ _, List.prefix_rfl, List.prefix_append _ _⟩

/-- Hoisting takes nothing back. -/
theorem le_hoist (progress : Progress) (shapeNames : List String) (requested : String)
    (values : List EnumValue) : progress ≤ (progress.hoist shapeNames requested values).2 := by
  rcases hoist_cases (Prod.eta (progress.hoist shapeNames requested values)).symm with
    ⟨_, _, _, _, h⟩ | ⟨_, _, h⟩
  · exact le_of_eq h.symm
  · rw [h]
    exact le_withInlineEnum _ _ _ _

/-! ## The names of hoisted enumerations -/

/-- The hoisted enumerations have names of their own, which no shape has. -/
structure WellNamed (shapeNames : List String) (progress : Progress) : Prop where
  nodup : (progress.inlineEnums.map InlineEnum.name).Nodup
  notMem : ∀ inline ∈ progress.inlineEnums, inline.name ∉ shapeNames

theorem wellNamed_empty : WellNamed shapeNames {} where
  nodup := List.nodup_nil
  notMem _ h := absurd h List.not_mem_nil

/-- Hoisting keeps the names apart. -/
theorem WellNamed.hoist (hwell : progress.WellNamed shapeNames) (requested : String)
    (values : List EnumValue) :
    (progress.hoist shapeNames requested values).2.WellNamed shapeNames := by
  rcases hoist_cases (Prod.eta (progress.hoist shapeNames requested values)).symm with
    ⟨_, _, _, _, h⟩ | ⟨hshape, hinline, h⟩
  · rw [h]
    exact hwell
  · rw [h]
    constructor
    · rw [withInlineEnum_inlineEnums, List.map_append, List.map_singleton, ← List.concat_eq_append]
      exact hwell.nodup.concat hinline
    · intro inline hmem
      rw [withInlineEnum_inlineEnums] at hmem
      rcases List.mem_append.mp hmem with hmem | hmem
      · exact hwell.notMem inline hmem
      · rw [List.mem_singleton.mp hmem]
        exact hshape

/-- Keeping the names apart is stable. -/
theorem stable_wellNamed (shapeNames : List String) :
    Session.Stable fun before after : Progress =>
      before.WellNamed shapeNames → after.WellNamed shapeNames where
  refl _ := id
  trans h h' := h' ∘ h
  report _ _ h := ⟨h.nodup, h.notMem⟩
  subject _ _ h := ⟨h.nodup, h.notMem⟩

end ApiScribe.Progress
