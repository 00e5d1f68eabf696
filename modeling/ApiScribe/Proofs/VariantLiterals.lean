import ApiScribe.Proofs.SchemaMappings

/-!
# What literals tell apart

A discriminated union should tell from the literal which of its variants a value is.  The literals come
from two places.  A variant that the mapping leads to has the first literal that does; any other variant
has its own name in small letters.  Literals of the first kind differ, because no literal is mapped twice
(`IsFirstMapped.unique`).  Literals of the second kind are never compared with anything: neither with
those of the mapping, nor with each other, although different names can be the same in small letters.

`AreConfused` lists the ways in which this goes wrong, and `variant_literals` says that there are no
others.  `exists_shared_literal` is a union with two variants that no literal tells apart.
-/

namespace ApiScribe.Binding

/-- The name of a variant in small letters. -/
def smallName (variant : String) : String :=
  String.ofList (Text.lowerText variant.toList)

/-- The entry of a mapping leads to the variant. -/
def LeadsTo (root : Json) (variant : String) (entry : String × String) : Prop :=
  Pointer.shapeName root (targetPointer entry.2) = .ok variant

/-- No entry of the mapping leads to the variant. -/
def IsUnmapped (root : Json) (mapping : List (String × String)) (variant : String) : Prop :=
  ∀ entry ∈ mapping, ¬ LeadsTo root variant entry

/-- The literal is the first one that is mapped to the variant. -/
def IsFirstMapped (root : Json) (mapping : List (String × String)) (variant literal : String) : Prop :=
  ∃ before target after, mapping = before ++ (literal, target) :: after ∧
    LeadsTo root variant (literal, target) ∧ IsUnmapped root before variant

/-- Two variants that get the same literal: their names are the same in small letters and neither is
mapped, or one of them is not mapped and its name in small letters is the first literal mapped to the
other. -/
inductive AreConfused (root : Json) (mapping : List (String × String)) (first second : String) : Prop
  | names (hfirst : IsUnmapped root mapping first) (hsecond : IsUnmapped root mapping second)
    (h : smallName first = smallName second)
  | left (hfirst : IsUnmapped root mapping first)
    (hsecond : IsFirstMapped root mapping second (smallName first))
  | right (hfirst : IsFirstMapped root mapping first (smallName second))
    (hsecond : IsUnmapped root mapping second)

variable {root : Json} {mapping : List (String × String)} {variant literal : String}

/-! ## Where a literal comes from -/

theorem IsFirstMapped.exists_mem (h : IsFirstMapped root mapping variant literal) :
    ∃ target, (literal, target) ∈ mapping ∧ LeadsTo root variant (literal, target) := by
  obtain ⟨before, target, after, rfl, htarget, -⟩ := h
  exact ⟨target, List.mem_append_right before List.mem_cons_self, htarget⟩

theorem IsFirstMapped.not_isUnmapped (h : IsFirstMapped root mapping variant literal) :
    ¬ IsUnmapped root mapping variant := by
  obtain ⟨target, hmem, htarget⟩ := h.exists_mem
  exact fun hunmapped => hunmapped _ hmem htarget

/-- A literal is mapped to one variant only. -/
theorem IsFirstMapped.unique {other : String} (hnodup : (Table.names mapping).Nodup)
    (h : IsFirstMapped root mapping variant literal)
    (hother : IsFirstMapped root mapping other literal) : variant = other := by
  obtain ⟨target, hmem, htarget⟩ := h.exists_mem
  obtain ⟨moved, hmoved, hfound⟩ := hother.exists_mem
  have hsame : some target = some moved :=
    ((Table.get?_eq_some_iff hnodup).mpr hmem).symm.trans ((Table.get?_eq_some_iff hnodup).mpr hmoved)
  obtain rfl := Option.some.inj hsame
  exact Except.ok.inj (htarget.symm.trans hfound)

/-- **The literal for a variant** is mapped to it, or it is its name. -/
theorem isLiteralFor_cases :
    IsLiteralFor root variant mapping literal ↔
      IsFirstMapped root mapping variant literal ∨
        IsUnmapped root mapping variant ∧ literal = smallName variant := by
  constructor
  · intro h
    induction h with
    | unmapped => exact Or.inr ⟨nofun, rfl⟩
    | @here literal target rest hfound =>
      exact Or.inl ⟨[], target, rest, rfl, hfound, nofun⟩
    | @there entry rest literal hne _ ih =>
      rcases ih with ⟨before, target, after, rfl, hfound, hbefore⟩ | ⟨hunmapped, rfl⟩
      · exact Or.inl ⟨entry :: before, target, after, rfl, hfound,
          List.forall_mem_cons.mpr ⟨hne, hbefore⟩⟩
      · exact Or.inr ⟨List.forall_mem_cons.mpr ⟨hne, hunmapped⟩, rfl⟩
  · rintro (⟨before, target, after, rfl, hfound, hbefore⟩ | ⟨hunmapped, rfl⟩)
    · induction before with
      | nil => exact .here hfound
      | cons entry before ih =>
        obtain ⟨hne, hbefore⟩ := List.forall_mem_cons.mp hbefore
        exact .there hne (ih hbefore)
    · induction mapping with
      | nil => exact .unmapped
      | cons entry mapping ih =>
        obtain ⟨hne, hunmapped⟩ := List.forall_mem_cons.mp hunmapped
        exact .there hne (ih hunmapped)

/-- There is one literal for a variant. -/
theorem IsLiteralFor.unique {other : String} (h : IsLiteralFor root variant mapping literal)
    (hother : IsLiteralFor root variant mapping other) : literal = other := by
  induction h with
  | unmapped =>
    cases hother
    rfl
  | here hfound =>
    cases hother with
    | here => rfl
    | there hne => exact absurd hfound hne
  | there hne _ ih =>
    cases hother with
    | here hfound => exact absurd hfound hne
    | there _ hother => exact ih hother

/-- **Different variants have the same literal** exactly if they are confused. -/
theorem literal_eq_iff {first second other : String} (hnodup : (Table.names mapping).Nodup)
    (hfirst : IsLiteralFor root first mapping literal)
    (hsecond : IsLiteralFor root second mapping other) (hne : first ≠ second) :
    literal = other ↔ AreConfused root mapping first second := by
  constructor
  · rintro rfl
    rcases isLiteralFor_cases.mp hfirst with hmapped | ⟨hunmapped, hname⟩
    · rcases isLiteralFor_cases.mp hsecond with hother | ⟨hother, rfl⟩
      · exact absurd (hmapped.unique hnodup hother) hne
      · exact .right hmapped hother
    · rcases isLiteralFor_cases.mp hsecond with hother | ⟨hother, hsame⟩
      · exact .left hunmapped (hname ▸ hother)
      · exact .names hunmapped hother (hname.symm.trans hsame)
  · have hnamed : ∀ {name}, IsUnmapped root mapping name →
        IsLiteralFor root name mapping (smallName name) :=
      fun hunmapped => isLiteralFor_cases.mpr (Or.inr ⟨hunmapped, rfl⟩)
    have hmapped : ∀ {name first}, IsFirstMapped root mapping name first →
        IsLiteralFor root name mapping first :=
      fun hmapped => isLiteralFor_cases.mpr (Or.inl hmapped)
    intro hconfused
    cases hconfused with
    | names hunmapped hother hsame =>
      rw [hfirst.unique (hnamed hunmapped), hsecond.unique (hnamed hother), hsame]
    | left hunmapped hother => rw [hfirst.unique (hnamed hunmapped), hsecond.unique (hmapped hother)]
    | right hfound hother => rw [hfirst.unique (hmapped hfound), hsecond.unique (hnamed hother)]

/-! ## What is bound -/

/-- Every variant of a union is bound to its literal. -/
theorem exists_literal {bindings : Table Binding} {shapes : List NamedShape} {named : NamedShape}
    {members : List Shape} {discriminator : Discriminator} (h : collect root shapes = .ok bindings)
    (hnamed : named ∈ shapes) (hunion : IsUnion named.shape members discriminator)
    (hvariant : variant ∈ variants root members) :
    ∃ literal, bindings.get? variant = some ⟨discriminator.property, literal⟩ ∧
      IsLiteralFor root variant discriminator.mapping literal := by
  obtain ⟨member, hmember, pointer, hreference, hfound⟩ := mem_variants_iff.mp hvariant
  obtain ⟨mapped, hmapped⟩ := exists_mappedLiterals.mpr
    (areResolved_of_collect h named hnamed members discriminator hunion).mapping
  have hliteral : IsLiteralFor root variant discriminator.mapping (literalFor mapped variant) :=
    (isLiteralFor_iff hmapped).mpr rfl
  have hclaim := IsClaim.claim hnamed hunion hmember hreference hfound hliteral
  exact ⟨literalFor mapped variant, get?_of_isClaim h hclaim, hliteral⟩

/-- **What literals tell apart.**  Every variant of a union of a document is bound, to the first literal
that the union maps to it or to its name in small letters if there is none.  Two different variants are
bound alike exactly if they are confused, so the literal determines the variant where all variants are
mapped. -/
theorem variant_literals {format : Notation} {text : String} {document : Document}
    {bindings : Table Binding} (hread : Document.readAs format text = .ok document)
    (hcollect : collect document.root document.namedShapes = .ok bindings) {named : NamedShape}
    (hnamed : named ∈ document.namedShapes) {members : List Shape} {discriminator : Discriminator}
    (hunion : IsUnion named.shape members discriminator) :
    (∀ variant ∈ variants document.root members, ∃ literal,
      bindings.get? variant = some ⟨discriminator.property, literal⟩ ∧
      (IsFirstMapped document.root discriminator.mapping variant literal ∨
        IsUnmapped document.root discriminator.mapping variant ∧ literal = smallName variant)) ∧
    (∀ first ∈ variants document.root members, ∀ second ∈ variants document.root members,
      first ≠ second →
      (bindings.get? first = bindings.get? second ↔
        AreConfused document.root discriminator.mapping first second)) ∧
    ((∀ variant ∈ variants document.root members,
        ¬ IsUnmapped document.root discriminator.mapping variant) →
      ∀ first ∈ variants document.root members, ∀ second ∈ variants document.root members,
        bindings.get? first = bindings.get? second → first = second) := by
  have hnodup : discriminator.mapping.names.Nodup :=
    (Document.wasRead_of_readAs hread).nodup_mapping hnamed hunion
  have hiff : ∀ first ∈ variants document.root members, ∀ second ∈ variants document.root members,
      first ≠ second →
      (bindings.get? first = bindings.get? second ↔
        AreConfused document.root discriminator.mapping first second) := by
    intro first hfirst second hsecond hne
    obtain ⟨literal, hbound, hliteral⟩ := exists_literal hcollect hnamed hunion hfirst
    obtain ⟨other, hother, hsame⟩ := exists_literal hcollect hnamed hunion hsecond
    rw [hbound, hother, ← literal_eq_iff hnodup hliteral hsame hne]
    simp only [Option.some.injEq, Binding.mk.injEq, true_and]
  refine ⟨fun variant hvariant => ?_, hiff, fun hmapped first hfirst second hsecond hsame => ?_⟩
  · obtain ⟨literal, hbound, hliteral⟩ := exists_literal hcollect hnamed hunion hvariant
    exact ⟨literal, hbound, isLiteralFor_cases.mp hliteral⟩
  · by_contra hne
    have hconfused := (hiff first hfirst second hsecond hne).mp hsame
    cases hconfused with
    | names hunmapped | left hunmapped => exact hmapped first hfirst hunmapped
    | right _ hunmapped => exact hmapped second hsecond hunmapped

/-- The unions of a document, each by the names of its variants and by what should tell them apart. -/
def unions (document : Document) : List (List String × Discriminator) :=
  document.namedShapes.filterMap fun named =>
    (union? named.shape).map fun union => (variants document.root union.1, union.2)

theorem exists_of_mem_unions {document : Document} {names : List String} {discriminator : Discriminator}
    (h : (names, discriminator) ∈ unions document) :
    ∃ named ∈ document.namedShapes, ∃ members, IsUnion named.shape members discriminator ∧
      variants document.root members = names := by
  obtain ⟨named, hnamed, hunion⟩ := List.mem_filterMap.mp h
  obtain ⟨⟨members, other⟩, hfound, heq⟩ := Option.map_eq_some_iff.mp hunion
  obtain ⟨rfl, rfl⟩ := Prod.mk.inj heq
  exact ⟨named, hnamed, members, union?_eq_some_iff.mp hfound, rfl⟩

/-- Pets of three kinds.  A cat is called a tom, and one of the other two is called so itself. -/
def catCalledTom : String :=
  String.intercalate "\n"
    ["openapi: 3.0.0",
      "paths: \x7b\x7d",
      "components:",
      " schemas:",
      "  Pet:",
      "   oneOf:",
      "   - $ref: '#/components/schemas/Cat'",
      "   - $ref: '#/components/schemas/Dog'",
      "   - $ref: '#/components/schemas/Tom'",
      "   discriminator:",
      "    propertyName: kind",
      "    mapping:",
      "     tom: Cat",
      "  Cat: \x7b\x7d",
      "  Dog: \x7b\x7d",
      "  Tom: \x7b\x7d"]

theorem reads_catCalledTom : Document.reads .yaml catCalledTom (fun document =>
    (["Cat", "Dog", "Tom"], ⟨"kind", [("tom", "Cat")]⟩) ∈ unions document ∧
      Pointer.shapeName document.root (targetPointer "Cat") = .ok "Cat" ∧
      collect document.root document.namedShapes =
        .ok [("Cat", ⟨"kind", "tom"⟩), ("Dog", ⟨"kind", "dog"⟩), ("Tom", ⟨"kind", "tom"⟩)]) = true := by
  decide +kernel

theorem variant_literals_tom : ∃ document bindings,
    Document.readAs .yaml catCalledTom = .ok document ∧
      collect document.root document.namedShapes = .ok bindings ∧
      bindings.get? "Cat" = bindings.get? "Tom" ∧ bindings.get? "Dog" ≠ bindings.get? "Tom" := by
  obtain ⟨document, hread, hcheck⟩ := Document.exists_of_reads reads_catCalledTom
  obtain ⟨hmem, hcat, hcollect⟩ := of_decide_eq_true hcheck
  obtain ⟨named, hnamed, members, hunion, hvariants⟩ := exists_of_mem_unions hmem
  obtain ⟨-, hiff, -⟩ := variant_literals hread hcollect hnamed hunion
  rw [hvariants] at hiff
  have hunmapped : ∀ name, name ≠ "Cat" → IsUnmapped document.root [("tom", "Cat")] name := by
    intro name hname entry hentry hfound
    obtain rfl := List.mem_singleton.mp hentry
    have hsame : "Cat" = name := Except.ok.inj (hcat.symm.trans hfound)
    exact hname hsame.symm
  refine ⟨document, _, hread, hcollect, ?_, ?_⟩
  · refine (hiff "Cat" (by decide) "Tom" (by decide) (by decide)).mpr (.right ?_ ?_)
    · exact ⟨[], "Cat", [], by decide +kernel, hcat, nofun⟩
    · exact hunmapped "Tom" (by decide)
  · refine mt (hiff "Dog" (by decide) "Tom" (by decide) (by decide)).mp fun hconfused => ?_
    cases hconfused with
    | names _ _ hsame => exact absurd hsame (by decide +kernel)
    | left _ hmapped => exact hmapped.not_isUnmapped (hunmapped "Tom" (by decide))
    | right hmapped => exact hmapped.not_isUnmapped (hunmapped "Dog" (by decide))

/-- **A literal can be shared** by two variants of a union, in a document whose bindings are collected. -/
theorem exists_shared_literal :
    ∃ document bindings named members discriminator,
      Document.readAs .yaml catCalledTom = .ok document ∧
      collect document.root document.namedShapes = .ok bindings ∧
      named ∈ document.namedShapes ∧ IsUnion named.shape members discriminator ∧
      "Cat" ∈ variants document.root members ∧ "Tom" ∈ variants document.root members ∧
      bindings.get? "Cat" = some ⟨discriminator.property, "tom"⟩ ∧
      bindings.get? "Tom" = some ⟨discriminator.property, "tom"⟩ := by
  obtain ⟨document, hread, hcheck⟩ := Document.exists_of_reads reads_catCalledTom
  obtain ⟨hmem, -, hcollect⟩ := of_decide_eq_true hcheck
  obtain ⟨named, hnamed, members, hunion, hvariants⟩ := exists_of_mem_unions hmem
  refine ⟨document, _, named, members, _, hread, hcollect, hnamed, hunion, ?_, ?_, rfl, rfl⟩
  · rw [hvariants]
    decide
  · rw [hvariants]
    decide

end ApiScribe.Binding
