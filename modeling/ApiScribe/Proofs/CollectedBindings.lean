import ApiScribe.Proofs.DocumentGrowth
import ApiScribe.Proofs.TypeOfShape
import ApiScribe.Proofs.UnionBindings

/-!
# The bindings are the claims

A named union with a discriminator makes a claim for every shape that it refers to: a property of that
shape holds a literal.  `Binding.IsClaim` says which claims there are, without a table and without an
order.  `Binding.collect` goes through the claims one after another and looks only at the first one for
each shape.

While it goes, the bindings stay among the claims and bind no shape twice (`Binding.AreAmong`).  If no two
claims contradict each other, a step can therefore not fail, and what is bound in the end is all that
was claimed (`collect_exact`).  Nothing in this depends on the order of the shapes or of the members of
a union, nor on the document as a whole beyond the names in it (`NamesAlike`).
-/

namespace ApiScribe

/-- A name that is not found is not bound. -/
theorem Table.not_mem_names {α : Type} {table : Table α} {name : String}
    (h : table.get? name = none) : name ∉ table.names := by
  intro hmem
  induction table with
  | nil => cases hmem
  | cons entry table ih =>
    obtain ⟨key, value⟩ := entry
    rw [get?] at h
    split at h
    next => cases h
    next hne =>
      rcases List.mem_cons.mp hmem with heq | hmem
      · exact hne heq.symm
      · exact ih h hmem

namespace Binding

/-! ## Claims -/

/-- The literal for a variant is the first one that is mapped to it, and its name in small letters if
there is none. -/
inductive IsLiteralFor (root : Json) (variant : String) : List (String × String) → String → Prop
  | unmapped : IsLiteralFor root variant [] (String.ofList (Text.lowerText variant.toList))
  | here {literal target : String} {rest : List (String × String)}
    (h : Pointer.shapeName root (targetPointer target) = .ok variant) :
    IsLiteralFor root variant ((literal, target) :: rest) literal
  | there {entry : String × String} {rest : List (String × String)} {literal : String}
    (hne : Pointer.shapeName root (targetPointer entry.2) ≠ .ok variant)
    (h : IsLiteralFor root variant rest literal) :
    IsLiteralFor root variant (entry :: rest) literal

/-- The shape is a union of the members that the discriminator tells apart. -/
def IsUnion (shape : Shape) (members : List Shape) (discriminator : Discriminator) : Prop :=
  ∃ kind, shape.kind = .composition kind members (some discriminator) ∧ kind ≠ .allOf

/-- The members of a union and the discriminator that tells them apart. -/
def union? (shape : Shape) : Option (List Shape × Discriminator) :=
  match shape.kind with
  | .composition .allOf _ _ => none
  | .composition _ members (some discriminator) => some (members, discriminator)
  | _ => none

theorem union?_eq_some_iff {shape : Shape} {members : List Shape} {discriminator : Discriminator} :
    union? shape = some (members, discriminator) ↔ IsUnion shape members discriminator := by
  rw [union?.eq_def, IsUnion]
  split
  next others _ hkind => simp [hkind]
  next kind others found hne hkind =>
    simp only [hkind, Option.some.injEq, Prod.mk.injEq, ShapeKind.composition.injEq]
    constructor
    · rintro ⟨rfl, rfl⟩
      exact ⟨kind, ⟨rfl, rfl, rfl⟩, fun heq => hne heq⟩
    · rintro ⟨_, ⟨-, hmembers, hdiscriminator⟩, -⟩
      exact ⟨hmembers, hdiscriminator⟩
  next hallOf hunion =>
    constructor
    · nofun
    · rintro ⟨kind, hkind, -⟩
      exact absurd hkind (hunion kind members discriminator)

/-- The names of the shapes that a union refers to. -/
def variants (root : Json) (members : List Shape) : List String :=
  members.filterMap fun member => match member.kind with
    | .reference pointer => (Pointer.shapeName root pointer).toOption
    | _ => none

theorem mem_variants_iff {root : Json} {members : List Shape} {variant : String} :
    variant ∈ variants root members ↔ ∃ member ∈ members, ∃ pointer,
      member.kind = .reference pointer ∧ Pointer.shapeName root pointer = .ok variant := by
  simp only [variants, List.mem_filterMap]
  refine exists_congr fun member => and_congr_right fun _ => ?_
  split
  next pointer hkind =>
    simp only [hkind, ShapeKind.reference.injEq, exists_eq_left']
    cases Pointer.shapeName root pointer <;> simp [Except.toOption]
  next hkind => exact iff_of_false nofun fun ⟨pointer, hpointer, _⟩ => hkind pointer hpointer

/-- One of the shapes is a union that refers to the variant and has this literal for it. -/
inductive IsClaim (root : Json) (shapes : List NamedShape) : String → Binding → Prop
  | claim {named : NamedShape} {members : List Shape} {discriminator : Discriminator}
    {member : Shape} {pointer variant literal : String} (hnamed : named ∈ shapes)
    (hunion : IsUnion named.shape members discriminator) (hmember : member ∈ members)
    (hreference : member.kind = .reference pointer)
    (hvariant : Pointer.shapeName root pointer = .ok variant)
    (hliteral : IsLiteralFor root variant discriminator.mapping literal) :
    IsClaim root shapes variant { property := discriminator.property, literal }

/-- The references and the mapped targets of a union all lead to named shapes. -/
structure IsResolved (root : Json) (members : List Shape) (discriminator : Discriminator) : Prop where
  members : ∀ member ∈ members, ∀ pointer, member.kind = .reference pointer →
    ∃ variant, Pointer.shapeName root pointer = .ok variant
  mapping : ∀ entry ∈ discriminator.mapping,
    ∃ name, Pointer.shapeName root (targetPointer entry.2) = .ok name

/-- All unions among the shapes are resolved. -/
def AreResolved (root : Json) (shapes : List NamedShape) : Prop :=
  ∀ named ∈ shapes, ∀ members discriminator, IsUnion named.shape members discriminator →
    IsResolved root members discriminator

/-- No two claims bind a variant differently. -/
def AreConsistent (root : Json) (shapes : List NamedShape) : Prop :=
  ∀ variant first second, IsClaim root shapes variant first → IsClaim root shapes variant second →
    first = second

variable {root : Json} {bindings after : Table Binding} {variant : String}

/-- More shapes make more claims. -/
theorem IsClaim.mono {shapes others : List NamedShape} {binding : Binding} (hsubset : shapes ⊆ others)
    (h : IsClaim root shapes variant binding) : IsClaim root others variant binding := by
  obtain ⟨hnamed, hunion, hmember, hreference, hvariant, hliteral⟩ := h
  exact .claim (hsubset hnamed) hunion hmember hreference hvariant hliteral

/-! ## Literals -/

/-- The targets of a mapping are found exactly if each of them leads to a named shape. -/
theorem exists_mappedLiterals {mapping : List (String × String)} :
    (∃ mapped, mappedLiterals root mapping = .ok mapped) ↔
      ∀ entry ∈ mapping, ∃ name, Pointer.shapeName root (targetPointer entry.2) = .ok name := by
  induction mapping with
  | nil => exact iff_of_true ⟨[], rfl⟩ nofun
  | cons entry mapping ih =>
    obtain ⟨literal, target⟩ := entry
    rw [List.forall_mem_cons, ← ih]
    simp only [mappedLiterals, CompileError.bind_eq_ok]
    constructor
    · rintro ⟨_, name, hname, others, hothers, -⟩
      exact ⟨⟨name, hname⟩, others, hothers⟩
    · rintro ⟨⟨name, hname⟩, others, hothers⟩
      exact ⟨_, name, hname, others, hothers, rfl⟩

/-- The literal that is looked up is the one that the mapping has for the variant. -/
theorem isLiteralFor_iff {mapping mapped : List (String × String)}
    (h : mappedLiterals root mapping = .ok mapped) {literal : String} :
    IsLiteralFor root variant mapping literal ↔ literal = literalFor mapped variant := by
  induction mapping generalizing mapped with
  | nil =>
    obtain rfl := Except.ok.inj h
    constructor
    · rintro ⟨⟩
      rfl
    · rintro rfl
      exact .unmapped
  | cons entry mapping ih =>
    obtain ⟨first, target⟩ := entry
    simp only [mappedLiterals, CompileError.bind_eq_ok] at h
    obtain ⟨name, hname, others, hothers, h⟩ := h
    obtain rfl := Except.ok.inj h
    by_cases hvariant : name = variant
    · have hfound : literalFor ((first, name) :: others) variant = first := by
        simp [literalFor, hvariant]
      rw [hfound]
      constructor
      · intro hliteral
        cases hliteral with
        | here => rfl
        | there hne => exact absurd (hvariant ▸ hname) hne
      · rintro rfl
        exact .here (hvariant ▸ hname)
    · have hother : Pointer.shapeName root (targetPointer target) ≠ .ok variant :=
        fun heq => hvariant (Except.ok.inj (hname.symm.trans heq))
      have hfound : literalFor ((first, name) :: others) variant = literalFor others variant := by
        simp [literalFor, hvariant]
      rw [hfound, ← ih hothers]
      constructor
      · intro hliteral
        cases hliteral with
        | here hhere => exact absurd hhere hother
        | there _ hthere => exact hthere
      · exact .there hother

/-! ## Bindings among claims -/

/-- The bindings are among the claims, and bind no variant twice. -/
structure AreAmong (claims : String → Binding → Prop) (bindings : Table Binding) : Prop where
  nodup : bindings.names.Nodup
  claimed : ∀ entry ∈ bindings, claims entry.1 entry.2

section Steps

variable {claims : String → Binding → Prop}
  (hunique : ∀ variant first second, claims variant first → claims variant second → first = second)
include hunique

/-- **A claim among others that agree with it** succeeds. -/
theorem exists_claim (h : AreAmong claims bindings) {binding : Binding}
    (hclaim : claims variant binding) :
    ∃ after, claim bindings variant binding = .ok after ∧ AreAmong claims after := by
  rw [claim]
  cases hbound : bindings.get? variant with
  | none =>
    have hnew : variant ∉ bindings.names := Table.not_mem_names hbound
    refine ⟨_, rfl, ?_, ?_⟩
    · rw [Table.names, List.map_append]
      exact h.nodup.append (List.nodup_singleton variant)
        (List.disjoint_singleton.mpr hnew)
    · exact List.forall_mem_append.mpr ⟨h.claimed, List.forall_mem_singleton.mpr hclaim⟩
  | some earlier =>
    have hearlier := h.claimed _ (Table.mem_of_get? hbound)
    dsimp only
    rw [if_pos (hunique variant earlier binding hearlier hclaim)]
    exact ⟨bindings, rfl, h⟩

/-- The members of a union are bound, if what it claims is among the claims. -/
theorem exists_claimMembers {property : String} {mapped : List (String × String)}
    {members : List Shape} (h : AreAmong claims bindings)
    (hmembers : ∀ member ∈ members, ∀ pointer, member.kind = .reference pointer →
      ∃ variant, Pointer.shapeName root pointer = .ok variant ∧
        claims variant { property, literal := literalFor mapped variant }) :
    ∃ after, claimMembers root property mapped bindings members = .ok after ∧
      AreAmong claims after := by
  induction members generalizing bindings with
  | nil => exact ⟨bindings, rfl, h⟩
  | cons member members ih =>
    obtain ⟨hmember, hrest⟩ := List.forall_mem_cons.mp hmembers
    rw [claimMembers.eq_def]
    dsimp only
    split
    next pointer hkind =>
      obtain ⟨variant, hvariant, hclaim⟩ := hmember pointer hkind
      obtain ⟨between, hbetween, hamong⟩ := exists_claim hunique h hclaim
      obtain ⟨after, hafter, hamong⟩ := ih hamong hrest
      simp only [CompileError.bind_eq_ok]
      exact ⟨after, ⟨variant, hvariant, between, hbetween, hafter⟩, hamong⟩
    next => exact ih h hrest

/-- A resolved union is bound, if what it claims is among the claims. -/
theorem exists_claimShape {named : NamedShape} (h : AreAmong claims bindings)
    (hresolved : ∀ members discriminator, IsUnion named.shape members discriminator →
      IsResolved root members discriminator)
    (hclaims : ∀ variant binding, IsClaim root [named] variant binding → claims variant binding) :
    ∃ after, claimShape root bindings named.shape = .ok after ∧ AreAmong claims after := by
  rw [claimShape.eq_def]
  split
  next => exact ⟨bindings, rfl, h⟩
  next kind members discriminator hne hkind =>
    have hunion : IsUnion named.shape members discriminator := ⟨kind, hkind, fun heq => hne heq⟩
    have hall := hresolved members discriminator hunion
    obtain ⟨mapped, hmapped⟩ := exists_mappedLiterals.mpr hall.mapping
    have hmembers : ∀ member ∈ members, ∀ pointer, member.kind = .reference pointer →
        ∃ variant, Pointer.shapeName root pointer = .ok variant ∧
          claims variant
            { property := discriminator.property, literal := literalFor mapped variant } := by
      intro member hmember pointer hreference
      obtain ⟨variant, hvariant⟩ := hall.members member hmember pointer hreference
      have hliteral : IsLiteralFor root variant discriminator.mapping (literalFor mapped variant) :=
        (isLiteralFor_iff hmapped).mpr rfl
      exact ⟨variant, hvariant, hclaims variant _
        (.claim (List.mem_singleton_self named) hunion hmember hreference hvariant hliteral)⟩
    obtain ⟨after, hafter, hamong⟩ := exists_claimMembers hunique h hmembers
    exact ⟨after, CompileError.bind_eq_ok.mpr ⟨mapped, hmapped, hafter⟩, hamong⟩
  next => exact ⟨bindings, rfl, h⟩

/-- **Resolved unions are bound**, one after the other, if what they claim is among the claims. -/
theorem exists_claimShapes {shapes : List NamedShape} (h : AreAmong claims bindings)
    (hresolved : AreResolved root shapes)
    (hclaims : ∀ variant binding, IsClaim root shapes variant binding → claims variant binding) :
    ∃ after, claimShapes root bindings shapes = .ok after ∧ AreAmong claims after := by
  induction shapes generalizing bindings with
  | nil => exact ⟨bindings, rfl, h⟩
  | cons named shapes ih =>
    obtain ⟨hnamed, hrest⟩ := List.forall_mem_cons.mp hresolved
    have hfirst : ∀ variant binding, IsClaim root [named] variant binding → claims variant binding :=
      fun variant binding hclaim => hclaims variant binding
        (hclaim.mono (List.cons_subset_cons named (List.nil_subset shapes)))
    have hothers : ∀ variant binding, IsClaim root shapes variant binding →
        claims variant binding :=
      fun variant binding hclaim => hclaims variant binding
        (hclaim.mono (List.subset_cons_self named shapes))
    obtain ⟨between, hbetween, hamong⟩ := exists_claimShape hunique h hnamed hfirst
    obtain ⟨after, hafter, hamong⟩ := ih hamong hrest hothers
    exact ⟨after, CompileError.bind_eq_ok.mpr ⟨between, hbetween, hafter⟩, hamong⟩

end Steps

/-! ## Exactness -/

variable {shapes : List NamedShape}

/-- A collection that succeeds has resolved all unions, and bound everything that was claimed. -/
theorem get?_of_isClaim (h : collect root shapes = .ok bindings) {binding : Binding}
    (hclaim : IsClaim root shapes variant binding) : bindings.get? variant = some binding := by
  obtain ⟨-, hbinds⟩ := binds_of_claimShapes h
  obtain @⟨named, members, discriminator, member, pointer, variant, literal, hnamed,
    ⟨kind, hkind, hne⟩, hmember, hreference, hvariant, hliteral⟩ := hclaim
  obtain ⟨mapped, hmapped, hmembers⟩ := hbinds named hnamed kind members discriminator hkind hne
  obtain ⟨name, hname, hbound⟩ := hmembers member hmember pointer hreference
  obtain rfl := Except.ok.inj (hvariant.symm.trans hname)
  rw [(isLiteralFor_iff hmapped).mp hliteral]
  exact hbound

theorem areResolved_of_collect (h : collect root shapes = .ok bindings) : AreResolved root shapes := by
  obtain ⟨-, hbinds⟩ := binds_of_claimShapes h
  rintro named hnamed members discriminator ⟨kind, hkind, hne⟩
  obtain ⟨mapped, hmapped, hmembers⟩ := hbinds named hnamed kind members discriminator hkind hne
  refine ⟨fun member hmember pointer hreference => ?_, exists_mappedLiterals.mp ⟨mapped, hmapped⟩⟩
  obtain ⟨variant, hvariant, -⟩ := hmembers member hmember pointer hreference
  exact ⟨variant, hvariant⟩

theorem areConsistent_of_collect (h : collect root shapes = .ok bindings) :
    AreConsistent root shapes := by
  intro variant first second hfirst hsecond
  have hsame := (get?_of_isClaim h hfirst).symm.trans (get?_of_isClaim h hsecond)
  exact Option.some.inj hsame

/-- Without a contradiction among the claims, the collection succeeds and binds nothing else. -/
theorem exists_collect (hresolved : AreResolved root shapes) (hconsistent : AreConsistent root shapes) :
    ∃ bindings, collect root shapes = .ok bindings ∧ AreAmong (IsClaim root shapes) bindings :=
  exists_claimShapes hconsistent ⟨List.nodup_nil, nofun⟩ hresolved fun _ _ h => h

theorem areAmong_of_collect (h : collect root shapes = .ok bindings) :
    AreAmong (IsClaim root shapes) bindings := by
  obtain ⟨others, hothers, hamong⟩ :=
    exists_collect (areResolved_of_collect h) (areConsistent_of_collect h)
  obtain rfl := Except.ok.inj (h.symm.trans hothers)
  exact hamong

/-- The collection succeeds exactly if all unions are resolved and no two claims disagree. -/
theorem exists_collect_iff :
    (∃ bindings, collect root shapes = .ok bindings) ↔
      AreResolved root shapes ∧ AreConsistent root shapes := by
  constructor
  · rintro ⟨bindings, h⟩
    exact ⟨areResolved_of_collect h, areConsistent_of_collect h⟩
  · rintro ⟨hresolved, hconsistent⟩
    obtain ⟨bindings, h, -⟩ := exists_collect hresolved hconsistent
    exact ⟨bindings, h⟩

/-- What is bound is what is claimed. -/
theorem mem_collect_iff (h : collect root shapes = .ok bindings) {binding : Binding} :
    (variant, binding) ∈ bindings ↔ IsClaim root shapes variant binding := by
  have hamong := areAmong_of_collect h
  exact ⟨hamong.claimed (variant, binding),
    fun hclaim => (Table.get?_eq_some_iff hamong.nodup).mp (get?_of_isClaim h hclaim)⟩

/-! ## Other orders -/

/-- A pointer names a shape in one document exactly if it names the same one in the other. -/
def NamesAlike (root other : Json) : Prop :=
  ∀ pointer name, Pointer.shapeName root pointer = .ok name ↔
    Pointer.shapeName other pointer = .ok name

/-- The shapes are the same, but if they are unions their members may stand in another order. -/
inductive IsReordered : Shape → Shape → Prop
  | same (shape : Shape) : IsReordered shape shape
  | union {kind : CompositionKind} {members others : List Shape} {discriminator : Option Discriminator}
    {nullable : Bool} {description : Option String} (h : members.Perm others) :
    IsReordered ⟨.composition kind members discriminator, nullable, description⟩
      ⟨.composition kind others discriminator, nullable, description⟩

/-- The shapes are in another order, and so may be the members of unions among them. -/
def AreReordered (shapes others : List NamedShape) : Prop :=
  ∃ between, shapes.Perm between ∧
    List.Forall₂ (fun named other => named.name = other.name ∧ IsReordered named.shape other.shape)
      between others

/-- A pointer names a shape exactly if it has the steps to one of the named schemas. -/
theorem shapeName_eq_ok_iff {components schemas : Table Json}
    (hcomponents : root.member? "components" = some (Json.object components))
    (hschemas : components.get? "schemas" = some (Json.object schemas)) {pointer name : String} :
    Pointer.shapeName root pointer = .ok name ↔
      Pointer.steps pointer = .ok ["components", "schemas", name] ∧ name ∈ schemas.names := by
  have hdescend : Pointer.descend pointer root ["components", "schemas", name] =
      Pointer.descend pointer (.object schemas) [name] := by
    cases root with
    | object members =>
      have hmember : Table.get? members "components" = some (.object components) := hcomponents
      simp only [Pointer.descend, hmember, hschemas]
    | _ => cases hcomponents
  rw [Pointer.shapeName_eq_ok, hdescend, Pointer.descend]
  refine and_congr_right fun _ => ?_
  cases hfound : schemas.get? name with
  | none =>
    refine iff_of_false ?_ (Table.not_mem_names hfound)
    rintro ⟨target, htarget⟩
    cases htarget
  | some value =>
    exact iff_of_true ⟨value, rfl⟩ (List.mem_map_of_mem (Table.mem_of_get? hfound))

/-- Documents whose schemas have the same names name shapes alike. -/
theorem namesAlike_of_names {other : Json} {components schemas moved named : Table Json}
    (hcomponents : root.member? "components" = some (Json.object components))
    (hschemas : components.get? "schemas" = some (Json.object schemas))
    (hmoved : other.member? "components" = some (Json.object moved))
    (hnamed : moved.get? "schemas" = some (Json.object named))
    (hnames : ∀ name, name ∈ schemas.names ↔ name ∈ named.names) : NamesAlike root other := by
  intro pointer name
  rw [shapeName_eq_ok_iff hcomponents hschemas, shapeName_eq_ok_iff hmoved hnamed, hnames name]

theorem NamesAlike.symm {other : Json} (h : NamesAlike root other) : NamesAlike other root :=
  fun pointer name => (h pointer name).symm

theorem IsReordered.symm {shape other : Shape} (h : IsReordered shape other) :
    IsReordered other shape := by
  cases h with
  | same => exact .same shape
  | union h => exact .union h.symm

/-- A union in another order has the same members. -/
theorem IsReordered.exists_union {shape other : Shape} (h : IsReordered shape other)
    {members : List Shape} {discriminator : Discriminator}
    (hunion : IsUnion shape members discriminator) :
    ∃ others, IsUnion other others discriminator ∧ ∀ member, member ∈ members ↔ member ∈ others := by
  cases h with
  | same => exact ⟨members, hunion, fun _ => Iff.rfl⟩
  | union h =>
    obtain ⟨kind, hkind, hne⟩ := hunion
    obtain ⟨rfl, rfl, rfl⟩ := ShapeKind.composition.inj hkind
    exact ⟨_, ⟨_, rfl, hne⟩, fun _ => h.mem_iff⟩

/-- Every shape is among those in another order, up to the order of its members. -/
theorem AreReordered.exists_mem {others : List NamedShape} (h : AreReordered shapes others)
    {named : NamedShape} (hnamed : named ∈ shapes) :
    ∃ other ∈ others, IsReordered named.shape other.shape := by
  obtain ⟨between, hperm, hforall⟩ := h
  obtain ⟨other, hother, -, hreordered⟩ := exists_of_forall₂_left hforall (hperm.mem_iff.mp hnamed)
  exact ⟨other, hother, hreordered⟩

theorem AreReordered.exists_mem_left {others : List NamedShape} (h : AreReordered shapes others)
    {other : NamedShape} (hother : other ∈ others) :
    ∃ named ∈ shapes, IsReordered other.shape named.shape := by
  obtain ⟨between, hperm, hforall⟩ := h
  obtain ⟨named, hnamed, -, hreordered⟩ := exists_of_forall₂_right hforall hother
  exact ⟨named, hperm.mem_iff.mpr hnamed, hreordered.symm⟩

theorem IsLiteralFor.congr {other : Json} (h : NamesAlike root other)
    {mapping : List (String × String)} {literal : String}
    (hliteral : IsLiteralFor root variant mapping literal) :
    IsLiteralFor other variant mapping literal := by
  induction hliteral with
  | unmapped => exact .unmapped
  | here hname => exact .here ((h _ _).mp hname)
  | there hne _ ih => exact .there (mt (h _ _).mpr hne) ih

/-- Claims do not depend on any order. -/
theorem IsClaim.reordered {other : Json} {others : List NamedShape} (hnames : NamesAlike root other)
    (hshapes : ∀ named ∈ shapes, ∃ moved ∈ others, IsReordered named.shape moved.shape)
    {binding : Binding} (h : IsClaim root shapes variant binding) :
    IsClaim other others variant binding := by
  obtain ⟨hnamed, hunion, hmember, hreference, hvariant, hliteral⟩ := h
  obtain ⟨moved, hmoved, hreordered⟩ := hshapes _ hnamed
  obtain ⟨members, hmembers, hsame⟩ := hreordered.exists_union hunion
  exact .claim hmoved hmembers ((hsame _).mp hmember) hreference ((hnames _ _).mp hvariant)
    (hliteral.congr hnames)

/-- Whether unions are resolved does not depend on any order. -/
theorem AreResolved.reordered {other : Json} {others : List NamedShape}
    (hnames : NamesAlike root other)
    (hshapes : ∀ moved ∈ others, ∃ named ∈ shapes, IsReordered moved.shape named.shape)
    (h : AreResolved root shapes) : AreResolved other others := by
  intro moved hmoved members discriminator hunion
  obtain ⟨named, hnamed, hreordered⟩ := hshapes moved hmoved
  obtain ⟨before, hbefore, hsame⟩ := hreordered.exists_union hunion
  have hresolved := h named hnamed before discriminator hbefore
  refine ⟨fun member hmember pointer hreference => ?_, fun entry hentry => ?_⟩
  · obtain ⟨variant, hvariant⟩ := hresolved.members member ((hsame member).mp hmember) pointer
      hreference
    exact ⟨variant, (hnames _ _).mp hvariant⟩
  · obtain ⟨name, hname⟩ := hresolved.mapping entry hentry
    exact ⟨name, (hnames _ _).mp hname⟩

/-- **The bindings are the claims.**  The collection succeeds exactly if the pointers of all unions
lead to named shapes and no two claims bind a variant differently, and then it binds what is claimed and
nothing else, no variant twice.  None of this depends on the order of the shapes or of the members of
unions. -/
theorem collect_exact (root : Json) (shapes : List NamedShape) :
    ((∃ bindings, collect root shapes = .ok bindings) ↔
      AreResolved root shapes ∧ AreConsistent root shapes) ∧
    (∀ bindings, collect root shapes = .ok bindings → bindings.names.Nodup ∧
      ∀ variant binding, ((variant, binding) ∈ bindings ↔ IsClaim root shapes variant binding) ∧
        (bindings.get? variant = some binding ↔ IsClaim root shapes variant binding)) ∧
    ∀ other others, NamesAlike root other → AreReordered shapes others →
      ((∃ bindings, collect root shapes = .ok bindings) ↔
        ∃ bindings, collect other others = .ok bindings) ∧
      ∀ bindings reordered, collect root shapes = .ok bindings →
        collect other others = .ok reordered →
        bindings.Perm reordered ∧ ∀ variant, bindings.get? variant = reordered.get? variant := by
  refine ⟨exists_collect_iff, fun bindings h => ?_, fun other others hnames hreordered => ?_⟩
  · have hamong := areAmong_of_collect h
    refine ⟨hamong.nodup, fun variant binding => ⟨mem_collect_iff h, ?_⟩⟩
    rw [Table.get?_eq_some_iff hamong.nodup]
    exact mem_collect_iff h
  · have hforth : ∀ named ∈ shapes, ∃ moved ∈ others, IsReordered named.shape moved.shape :=
      fun _ hnamed => hreordered.exists_mem hnamed
    have hback : ∀ moved ∈ others, ∃ named ∈ shapes, IsReordered moved.shape named.shape :=
      fun _ hmoved => hreordered.exists_mem_left hmoved
    have hclaims : ∀ variant binding,
        IsClaim root shapes variant binding ↔ IsClaim other others variant binding :=
      fun _ _ => ⟨.reordered hnames hforth, .reordered hnames.symm hback⟩
    constructor
    · rw [exists_collect_iff, exists_collect_iff]
      refine and_congr ⟨.reordered hnames hback, .reordered hnames.symm hforth⟩ ?_
      simp only [AreConsistent, hclaims]
    · intro bindings reordered h hmoved
      have hmem : ∀ entry, entry ∈ bindings ↔ entry ∈ reordered := by
        rintro ⟨variant, binding⟩
        rw [mem_collect_iff h, mem_collect_iff hmoved, hclaims]
      have hnodup := (areAmong_of_collect h).nodup
      have hnodupMoved := (areAmong_of_collect hmoved).nodup
      refine ⟨(List.perm_ext_iff_of_nodup hnodup.of_map hnodupMoved.of_map).mpr hmem,
        fun variant => Option.ext fun binding => ?_⟩
      rw [Table.get?_eq_some_iff hnodup, Table.get?_eq_some_iff hnodupMoved]
      exact hmem (variant, binding)

/-- A document with schemas of these names. -/
def petsRoot (names : List String) : Json :=
  .object [("components", .object [("schemas", .object (names.map fun name => (name, .object [])))])]

/-- A pet of these variants, where a cat is called a tom. -/
def pet (variants : List String) : NamedShape where
  name := "Pet"
  shape := ⟨.composition .oneOf
    (variants.map fun variant => ⟨.reference ("#/components/schemas/" ++ variant), false, none⟩)
    (some ⟨"kind", [("tom", "Cat")]⟩), false, none⟩

/-- A variant of pets. -/
def petVariant (name : String) : NamedShape :=
  ⟨name, ⟨.object [] [] .unspecified, false, none⟩⟩

theorem collect_exact_pet :
    collect (petsRoot ["Cat", "Dog", "Pet"]) [petVariant "Cat", petVariant "Dog", pet ["Cat", "Dog"]] =
        .ok [("Cat", ⟨"kind", "tom"⟩), ("Dog", ⟨"kind", "dog"⟩)] ∧
      collect (petsRoot ["Pet", "Dog", "Cat"])
          [pet ["Dog", "Cat"], petVariant "Dog", petVariant "Cat"] =
        .ok [("Dog", ⟨"kind", "dog"⟩), ("Cat", ⟨"kind", "tom"⟩)] ∧
      (∀ binding, IsClaim (petsRoot ["Cat", "Dog", "Pet"])
          [petVariant "Cat", petVariant "Dog", pet ["Cat", "Dog"]] "Dog" binding ↔
        binding = ⟨"kind", "dog"⟩) ∧
      [("Cat", (⟨"kind", "tom"⟩ : Binding)), ("Dog", ⟨"kind", "dog"⟩)].Perm
        [("Dog", ⟨"kind", "dog"⟩), ("Cat", ⟨"kind", "tom"⟩)] := by
  have h : collect (petsRoot ["Cat", "Dog", "Pet"])
      [petVariant "Cat", petVariant "Dog", pet ["Cat", "Dog"]] =
        .ok [("Cat", ⟨"kind", "tom"⟩), ("Dog", ⟨"kind", "dog"⟩)] := by decide +kernel
  have hmoved : collect (petsRoot ["Pet", "Dog", "Cat"])
      [pet ["Dog", "Cat"], petVariant "Dog", petVariant "Cat"] =
        .ok [("Dog", ⟨"kind", "dog"⟩), ("Cat", ⟨"kind", "tom"⟩)] := by decide +kernel
  have hnames : NamesAlike (petsRoot ["Cat", "Dog", "Pet"]) (petsRoot ["Pet", "Dog", "Cat"]) := by
    refine namesAlike_of_names rfl rfl rfl rfl fun name => ?_
    simp only [Table.names, List.map_cons, List.map_nil, List.mem_cons, List.not_mem_nil, or_false]
    tauto
  have hreordered : AreReordered [petVariant "Cat", petVariant "Dog", pet ["Cat", "Dog"]]
      [pet ["Dog", "Cat"], petVariant "Dog", petVariant "Cat"] := by
    refine ⟨[pet ["Cat", "Dog"], petVariant "Dog", petVariant "Cat"],
      (List.reverse_perm _).symm, ?_⟩
    exact .cons ⟨rfl, .union (.swap _ _ _)⟩
      (.cons ⟨rfl, .same _⟩ (.cons ⟨rfl, .same _⟩ .nil))
  obtain ⟨-, hexact, hindependent⟩ := collect_exact (petsRoot ["Cat", "Dog", "Pet"])
    [petVariant "Cat", petVariant "Dog", pet ["Cat", "Dog"]]
  refine ⟨h, hmoved, fun binding => ?_, ((hindependent _ _ hnames hreordered).2 _ _ h hmoved).1⟩
  rw [← ((hexact _ h).2 "Dog" binding).2]
  exact Option.some_inj.trans eq_comm

end Binding

end ApiScribe
