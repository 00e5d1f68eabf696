import ApiScribe.Proofs.SessionRun

/-!
# What discriminated unions bind

`Binding.collect` goes through the named shapes of a document and binds the shapes that discriminated
unions refer to.  Each step of it only ever adds bindings (`Table.Retained`), because a name that is
bound already keeps its binding or stops the whole.  So what one union asks for is still there when
all of them have been seen: `binds_of_claimShapes`.
-/

namespace ApiScribe

/-! ## Tables that grow -/

namespace Table

variable {α : Type}

/-- Whatever is bound in the first table is bound to the same in the second. -/
def Retained (before after : Table α) : Prop :=
  ∀ ⦃name value⦄, before.get? name = some value → after.get? name = some value

theorem Retained.refl (table : Table α) : table.Retained table :=
  fun _ _ h => h

theorem Retained.trans {first second third : Table α} (h : first.Retained second)
    (h' : second.Retained third) : first.Retained third :=
  fun _ _ hfirst => h' (h hfirst)

/-- A name is looked up in the first of two tables, and in the second if it is not there. -/
theorem get?_append (first second : Table α) (name : String) :
    get? (first ++ second) name = (first.get? name).or (second.get? name) := by
  induction first with
  | nil => rfl
  | cons binding rest ih =>
    obtain ⟨key, value⟩ := binding
    rw [List.cons_append, get?, get?]
    split
    · rfl
    · exact ih

theorem retained_append (first second : Table α) : first.Retained (first ++ second) := by
  intro name value h
  rw [get?_append, h, Option.some_or]

end Table

/-! ## One union after the other -/

/-- Is the shape a union whose members a property tells apart? -/
def Shape.isDiscriminated (shape : Shape) : Bool :=
  match shape.kind with
  | .composition .allOf _ _ => false
  | .composition _ _ (some _) => true
  | _ => false

namespace Binding

variable {root : Json} {bindings after : Table Binding}

/-- A shape that is no discriminated union binds nothing. -/
theorem claimShape_eq {shape : Shape} (h : shape.isDiscriminated = false) :
    claimShape root bindings shape = .ok bindings := by
  obtain ⟨kind, nullable, description⟩ := shape
  cases kind with
  | composition kind members discriminator =>
    cases discriminator with
    | none => cases kind <;> rfl
    | some discriminator =>
      cases kind with
      | allOf => rfl
      | oneOf => cases h
      | anyOf => cases h
  | _ => rfl

/-- Shapes without discriminated unions among them bind nothing. -/
theorem claimShapes_eq {shapes : List NamedShape}
    (h : ∀ named ∈ shapes, named.shape.isDiscriminated = false) :
    claimShapes root bindings shapes = .ok bindings := by
  induction shapes with
  | nil => rfl
  | cons named shapes ih =>
    obtain ⟨hnamed, hshapes⟩ := List.forall_mem_cons.mp h
    rw [claimShapes, claimShape_eq hnamed]
    exact ih hshapes

/-- A variant that was claimed is bound as it was claimed. -/
theorem claim_eq_ok {variant : String} {binding : Binding}
    (h : claim bindings variant binding = .ok after) :
    bindings.Retained after ∧ after.get? variant = some binding := by
  rw [claim] at h
  split at h
  next hnew =>
    obtain rfl := Except.ok.inj h
    refine ⟨Table.retained_append _ _, ?_⟩
    rw [Table.get?_append, hnew, Option.none_or]
    exact if_pos rfl
  next earlier hearlier =>
    split at h
    next hsame =>
      obtain rfl := Except.ok.inj h
      exact ⟨Table.Retained.refl _, hsame ▸ hearlier⟩
    next => cases h

theorem claimMembers_eq_ok {property : String} {mapped : List (String × String)}
    {members : List Shape} (h : claimMembers root property mapped bindings members = .ok after) :
    bindings.Retained after ∧
      ∀ member ∈ members, ∀ pointer, member.kind = .reference pointer →
        ∃ variant, Pointer.shapeName root pointer = .ok variant ∧
          after.get? variant = some { property, literal := literalFor mapped variant } := by
  induction members generalizing bindings with
  | nil =>
    obtain rfl := Except.ok.inj h
    exact ⟨Table.Retained.refl _, fun _ hmem => absurd hmem List.not_mem_nil⟩
  | cons member members ih =>
    rw [claimMembers.eq_def] at h
    simp only at h
    split at h
    next pointer hkind =>
      simp only [CompileError.bind_eq_ok] at h
      obtain ⟨variant, hvariant, between, hclaim, h⟩ := h
      obtain ⟨hbefore, hbound⟩ := claim_eq_ok hclaim
      obtain ⟨hafter, hmembers⟩ := ih h
      refine ⟨hbefore.trans hafter, List.forall_mem_cons.mpr ⟨?_, hmembers⟩⟩
      intro other hother
      obtain rfl := ShapeKind.reference.inj (hkind.symm.trans hother)
      exact ⟨variant, hvariant, hafter hbound⟩
    next hkind =>
      obtain ⟨hafter, hmembers⟩ := ih h
      refine ⟨hafter, List.forall_mem_cons.mpr ⟨?_, hmembers⟩⟩
      intro pointer hpointer
      exact absurd hpointer (hkind pointer)

/-- The bindings hold what a shape asks for, if it is a discriminated union: every shape that it
refers to is bound to the literal that the union has for it. -/
def Binds (root : Json) (bindings : Table Binding) (shape : Shape) : Prop :=
  ∀ kind members discriminator, shape.kind = .composition kind members (some discriminator) →
    kind ≠ .allOf →
    ∃ mapped, mappedLiterals root discriminator.mapping = .ok mapped ∧
      ∀ member ∈ members, ∀ pointer, member.kind = .reference pointer →
        ∃ variant, Pointer.shapeName root pointer = .ok variant ∧
          bindings.get? variant =
            some { property := discriminator.property, literal := literalFor mapped variant }

theorem Binds.retained {shape : Shape} (h : Binds root bindings shape)
    (hafter : bindings.Retained after) : Binds root after shape := by
  intro kind members discriminator hkind hunion
  obtain ⟨mapped, hmapped, hmembers⟩ := h kind members discriminator hkind hunion
  refine ⟨mapped, hmapped, fun member hmember pointer hpointer => ?_⟩
  obtain ⟨variant, hvariant, hbound⟩ := hmembers member hmember pointer hpointer
  exact ⟨variant, hvariant, hafter hbound⟩

theorem claimShape_eq_ok {shape : Shape} (h : claimShape root bindings shape = .ok after) :
    bindings.Retained after ∧ Binds root after shape := by
  rw [claimShape.eq_def] at h
  split at h
  next hkind =>
    obtain rfl := Except.ok.inj h
    refine ⟨Table.Retained.refl _, fun kind members discriminator hunion hne => ?_⟩
    rw [hkind] at hunion
    cases hunion
    exact absurd rfl hne
  next members discriminator _ hkind =>
    obtain ⟨mapped, hmapped, h⟩ := CompileError.bind_eq_ok.mp h
    obtain ⟨hafter, hmembers⟩ := claimMembers_eq_ok h
    refine ⟨hafter, fun kind others other hunion _ => ?_⟩
    rw [hkind] at hunion
    cases hunion
    exact ⟨mapped, hmapped, hmembers⟩
  next hplain hkind =>
    obtain rfl := Except.ok.inj h
    exact ⟨Table.Retained.refl _, fun _ _ _ hunion _ => absurd hunion (hkind _ _ _)⟩

/-- **Every discriminated union among the shapes has its variants bound** in the end. -/
theorem binds_of_claimShapes {shapes : List NamedShape}
    (h : claimShapes root bindings shapes = .ok after) :
    bindings.Retained after ∧ ∀ named ∈ shapes, Binds root after named.shape := by
  induction shapes generalizing bindings with
  | nil =>
    obtain rfl := Except.ok.inj h
    exact ⟨Table.Retained.refl _, fun _ hmem => absurd hmem List.not_mem_nil⟩
  | cons named shapes ih =>
    obtain ⟨between, hnamed, h⟩ := CompileError.bind_eq_ok.mp h
    obtain ⟨hbefore, hbinds⟩ := claimShape_eq_ok hnamed
    obtain ⟨hafter, hshapes⟩ := ih h
    exact ⟨hbefore.trans hafter, List.forall_mem_cons.mpr ⟨hbinds.retained hafter, hshapes⟩⟩

end Binding

end ApiScribe
