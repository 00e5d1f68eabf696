import ApiScribe.Session
import Mathlib.Order.Defs.PartialOrder
import Mathlib.Data.List.Basic

/-!
# Runs of sessions

A step of a session takes a progress and leaves a progress.  Two questions come back in every
theory of what is generated: which parts a successful run was made of, and what a run does to the
progress whether it succeeds or not.

* The lemmas `..._eq_ok` answer the first.  `bind_eq_ok` takes a run of two steps apart, and there
  is one lemma for each primitive step.
* `Keeps` answers the second, for a relation `R` between the progress before and after.  A relation
  is `Stable` when it survives everything that is done besides handing out names; `Stable.bind`
  carries it through a sequence of steps.  What handing out a name does to `R` is said where `R` is.
* `Closed` is what an induction over shapes needs of a property of steps, whatever it says.  Keeping
  a stable relation is one such property.

Progress is ordered by what was collected: `before ≤ after` says that nothing was taken back.  The
order is stable, so everything that a run finds is still there at the end.
-/

namespace ApiScribe

/-! ## Successful runs -/

/-- A computation in two parts succeeds when both do. -/
theorem CompileError.bind_eq_ok {α β : Type} {first : Except CompileError α}
    {next : α → Except CompileError β} {result : β} :
    (first >>= next) = .ok result ↔ ∃ value, first = .ok value ∧ next value = .ok result := by
  cases first with
  | error error =>
    constructor
    · intro h
      cases h
    · rintro ⟨_, h, -⟩
      cases h
  | ok value =>
    constructor
    · exact fun h => ⟨value, rfl, h⟩
    · rintro ⟨_, h, hnext⟩
      rw [Except.ok.inj h]
      exact hnext

namespace Session

variable {α β : Type}

theorem bind_apply (step : Session α) (next : α → Session β) (scope : Scope) (before : Progress) :
    (step >>= next) scope before =
      match step scope before with
      | (.ok value, progress) => next value scope progress
      | (.error error, progress) => (.error error, progress) :=
  rfl

protected theorem id_map (step : Session α) : id <$> step = step := by
  funext scope before
  show (step >>= pure) scope before = step scope before
  rw [bind_apply]
  rcases step scope before with ⟨_ | _, _⟩ <;> rfl

protected theorem bind_assoc {γ : Type} (step : Session α) (next : α → Session β)
    (last : β → Session γ) :
    step >>= next >>= last = step >>= fun value => next value >>= last := by
  funext scope before
  rw [bind_apply, bind_apply, bind_apply]
  rcases step scope before with ⟨_ | _, _⟩ <;> rfl

instance : LawfulMonad Session :=
  LawfulMonad.mk' Session Session.id_map (fun _ _ => rfl) Session.bind_assoc

/-- The settings do not change, so it does not matter when they are read. -/
theorem settings_bind_comm (step : Session α) (next : Settings → α → Session β) :
    (do let settings ← settings; let value ← step; next settings value) =
      (do let value ← step; let settings ← settings; next settings value) := by
  funext scope before
  show (step >>= next scope.settings) scope before =
    (step >>= fun value => settings >>= fun settings => next settings value) scope before
  rw [bind_apply, bind_apply]
  rcases step scope before with ⟨_ | _, _⟩ <;> rfl

/-- A run of two steps succeeds when both do, the second from where the first ended. -/
@[simp] theorem bind_eq_ok {step : Session α} {next : α → Session β} {scope : Scope}
    {before after : Progress} {result : β} :
    (step >>= next) scope before = (.ok result, after) ↔
      ∃ value between, step scope before = (.ok value, between) ∧
        next value scope between = (.ok result, after) := by
  rw [bind_apply]
  rcases step scope before with ⟨_ | value, between⟩
  · constructor
    · intro h
      cases h
    · rintro ⟨value, progress, h, -⟩
      cases h
  · constructor
    · intro h
      exact ⟨value, between, rfl, h⟩
    · rintro ⟨other, progress, h, hnext⟩
      cases h
      exact hnext

variable {scope : Scope} {before after : Progress}

@[simp] theorem pure_eq_ok {value result : α} :
    (pure value : Session α) scope before = (.ok result, after) ↔
      value = result ∧ before = after := by
  show (Except.ok value, before) = (Except.ok result, after) ↔ _
  rw [Prod.mk.injEq, Except.ok.injEq]

@[simp] theorem settings_eq_ok {result : Settings} :
    Session.settings scope before = (.ok result, after) ↔
      scope.settings = result ∧ before = after := by
  rw [Session.settings, Prod.mk.injEq, Except.ok.injEq]

@[simp] theorem onRoot_eq_ok {compute : Json → Except CompileError α} {result : α} :
    onRoot compute scope before = (.ok result, after) ↔
      compute scope.root = .ok result ∧ before = after := by
  rw [onRoot, Prod.mk.injEq]

@[simp] theorem setSubject_eq_ok {subject : String} {result : Unit} :
    setSubject subject scope before = (.ok result, after) ↔
      { before with subject } = after := by
  rw [setSubject, Prod.mk.injEq]
  exact and_iff_right rfl

@[simp] theorem report_eq_ok {kind : DiagnosticKind} {result : Unit} :
    report kind scope before = (.ok result, after) ↔ before.report kind = after := by
  rw [report, Prod.mk.injEq]
  exact and_iff_right rfl

@[simp] theorem hoist_eq_ok {requested result : String} {values : List EnumValue} :
    hoist requested values scope before = (.ok result, after) ↔
      before.hoist scope.shapeNames requested values = (result, after) := by
  rw [hoist, Prod.mk.injEq, Except.ok.injEq, Prod.ext_iff]

@[simp] theorem claimClientName_eq_ok {requested result : String} :
    claimClientName requested scope before = (.ok result, after) ↔
      before.claimClientName requested = (result, after) := by
  rw [claimClientName, Prod.mk.injEq, Except.ok.injEq, Prod.ext_iff]

@[simp] theorem bindingOf?_eq_ok {shape : String} {result : Option Binding} :
    bindingOf? shape scope before = (.ok result, after) ↔
      scope.bindingOf? shape = result ∧ before = after := by
  rw [bindingOf?, Prod.mk.injEq, Except.ok.injEq]

@[simp] theorem inlineEnums_eq_ok {result : List InlineEnum} :
    inlineEnums scope before = (.ok result, after) ↔
      before.inlineEnums = result ∧ before = after := by
  rw [inlineEnums, Prod.mk.injEq, Except.ok.injEq]

/-! ## What runs keep -/

/-- A relation between progress before and after that holds for every sequence of steps as soon as
it holds for those that hand out names. -/
structure Stable (R : Progress → Progress → Prop) : Prop where
  refl : ∀ progress, R progress progress
  trans : ∀ {first second third}, R first second → R second third → R first third
  report : ∀ progress kind, R progress (progress.report kind)
  subject : ∀ progress subject, R progress { progress with subject }

/-- Every run of the step, successful or not, leaves a progress related to the one before. -/
def Keeps (R : Progress → Progress → Prop) (scope : Scope) (step : Session α) : Prop :=
  ∀ before, R before (step scope before).2

namespace Keeps

/-- A successful run of a step that keeps a relation. -/
theorem of_eq_ok {R : Progress → Progress → Prop} {step : Session α} {result : α}
    (h : Keeps R scope step) (hrun : step scope before = (.ok result, after)) : R before after := by
  have hstep := h before
  rw [hrun] at hstep
  exact hstep

end Keeps

namespace Stable

variable {R : Progress → Progress → Prop}

theorem pure (hR : Stable R) (value : α) : Keeps R scope (Pure.pure value : Session α) :=
  hR.refl

theorem settings (hR : Stable R) : Keeps R scope Session.settings :=
  hR.refl

theorem onRoot (hR : Stable R) (compute : Json → Except CompileError α) :
    Keeps R scope (Session.onRoot compute) :=
  hR.refl

theorem bindingOf? (hR : Stable R) (shape : String) : Keeps R scope (Session.bindingOf? shape) :=
  hR.refl

theorem inlineEnums (hR : Stable R) : Keeps R scope Session.inlineEnums :=
  hR.refl

theorem reported (hR : Stable R) (kind : DiagnosticKind) : Keeps R scope (Session.report kind) :=
  fun before => hR.report before kind

theorem setSubject (hR : Stable R) (subject : String) :
    Keeps R scope (Session.setSubject subject) :=
  fun before => hR.subject before subject

/-- A sequence of two steps keeps what both of them keep. -/
theorem bind (hR : Stable R) {step : Session α} {next : α → Session β}
    (hstep : Keeps R scope step) (hnext : ∀ value, Keeps R scope (next value)) :
    Keeps R scope (step >>= next) := by
  intro before
  have hfirst := hstep before
  rw [bind_apply]
  revert hfirst
  rcases step scope before with ⟨_ | value, between⟩ <;> intro hfirst
  · exact hfirst
  · exact hR.trans hfirst (hnext value between)

end Stable

/-! ## What all steps have in common -/

/-- A property of steps that holds of those with which types and declarations are written, hoisting
and looking up bindings and bases aside, and of a sequence of steps as soon as it holds of its
parts. -/
structure Closed (P : ∀ {α : Type}, Session α → Prop) : Prop where
  pure : ∀ {α : Type} (value : α), P (Pure.pure value : Session α)
  bind : ∀ {α β : Type} {step : Session α} {next : α → Session β}, P step →
    (∀ value, P (next value)) → P (step >>= next)
  settings : P Session.settings
  shapeName : ∀ pointer, P (Session.onRoot fun root => Pointer.shapeName root pointer)
  reported : ∀ kind, P (Session.report kind)
  setSubject : ∀ subject, P (Session.setSubject subject)

/-- A property of steps that holds of all those with which declarations are written, hoisting aside.
A base is looked up twice, first for its name and then for its shape, and where there is no name there
is no second time. -/
structure ClosedWithLookups (P : ∀ {α : Type}, Session α → Prop) : Prop extends Closed P where
  bindingOf? : ∀ shape, P (Session.bindingOf? shape)
  inlineEnums : P Session.inlineEnums
  base : ∀ {α : Type} (pointer : String) {next : String → Shape → Session α},
    (∀ base target, P (next base target)) → P (do
      let base ← Session.onRoot fun root => Pointer.shapeName root pointer
      let target ← Session.onRoot fun root => Pointer.resolve root pointer
      next base target)

/-- Keeping a stable relation is such a property. -/
theorem Stable.closed {R : Progress → Progress → Prop} (hR : Stable R) (scope : Scope) :
    ClosedWithLookups fun step => Keeps R scope step where
  pure := hR.pure
  bind := hR.bind
  settings := hR.settings
  shapeName _ := hR.onRoot _
  reported := hR.reported
  setSubject := hR.setSubject
  bindingOf? := hR.bindingOf?
  inlineEnums := hR.inlineEnums
  base _ _ hnext := hR.bind (hR.onRoot _) fun base => hR.bind (hR.onRoot _) fun target =>
    hnext base target

end Session

/-! ## The order of progress -/

namespace Progress

/-- Nothing that was collected before is missing or in another place after. -/
instance : Preorder Progress where
  le before after :=
    before.inlineEnums <+: after.inlineEnums ∧ before.clientNames <+: after.clientNames ∧
      before.diagnostics <+: after.diagnostics
  le_refl _ := ⟨List.prefix_rfl, List.prefix_rfl, List.prefix_rfl⟩
  le_trans _ _ _ h h' := ⟨h.1.trans h'.1, h.2.1.trans h'.2.1, h.2.2.trans h'.2.2⟩

variable {before after : Progress}

theorem inlineEnums_prefix (h : before ≤ after) : before.inlineEnums <+: after.inlineEnums :=
  h.1

theorem mem_inlineEnums {inline : InlineEnum} (h : before ≤ after)
    (hmem : inline ∈ before.inlineEnums) : inline ∈ after.inlineEnums :=
  h.1.subset hmem

theorem mem_diagnostics {diagnostic : Diagnostic} (h : before ≤ after)
    (hmem : diagnostic ∈ before.diagnostics) : diagnostic ∈ after.diagnostics :=
  h.2.2.subset hmem

theorem le_report (progress : Progress) (kind : DiagnosticKind) :
    progress ≤ progress.report kind :=
  ⟨List.prefix_rfl, List.prefix_rfl, List.prefix_append _ _⟩

theorem mem_report (progress : Progress) (kind : DiagnosticKind) :
    ⟨progress.subject, kind⟩ ∈ (progress.report kind).diagnostics :=
  List.mem_append_right _ (List.mem_singleton_self _)

/-- Growing is stable. -/
theorem stable_le : Session.Stable (fun before after : Progress => before ≤ after) where
  refl _ := le_rfl
  trans := le_trans
  report := le_report
  subject _ _ := ⟨List.prefix_rfl, List.prefix_rfl, List.prefix_rfl⟩

/-- Keeping the hoisted enumerations as they are is stable. -/
theorem stable_inlineEnums :
    Session.Stable (fun before after : Progress => after.inlineEnums = before.inlineEnums) where
  refl _ := rfl
  trans h h' := h'.trans h
  report _ _ := rfl
  subject _ _ := rfl

end Progress

end ApiScribe
