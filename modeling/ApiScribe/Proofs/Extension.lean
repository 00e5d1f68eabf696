import ApiScribe.Proofs.SessionRun
import ApiScribe.Shape.Declaration

/-!
# When a composition extends a base

A named composition of shapes that hold all at once is declared as an interface or as an alias of an
intersection.  What decides between them is said here once, without a session: `ExtendsBase` lists
what has to be true of the members for the interface, and `composedAs_of_composedInterface` says that the
interface is written exactly then.  Where it is not written nothing was hoisted on the way.
-/

namespace ApiScribe.Shape

open TypeScript

/-- Can the properties of the shape be the body of an interface?  A shape that says nothing has
none. -/
def isBody (shape : Shape) : Bool :=
  !shape.nullable && match shape.kind with
    | .unknown => true
    | .object _ _ additional => !hasTypedValues additional
    | _ => false

/-- What makes a composition of the members an interface: it is not nullable, one member is a
reference, which leads to something that an interface can extend, and there is at most one other
member, which can be a body. -/
structure ExtendsBase (root : Json) (nullable : Bool) (members : List Shape) (pointer : String)
    (extra : Option Shape) : Prop where
  nullable_eq : nullable = false
  pointers_eq : pointers members = [pointer]
  others_eq : (members.filter fun member => !member.isReference) = extra.toList
  extendable : ∃ target, Pointer.resolve root pointer = .ok target ∧ target.isExtendable = true
  isBody : ∀ other, extra = some other → other.isBody = true

/-! ## The members of a composition that extends a base -/

theorem exists_eq_of_isReference {member : Shape} (h : member.isReference = true) :
    ∃ pointer nullable description, member = ⟨.reference pointer, nullable, description⟩ := by
  obtain ⟨kind, nullable, description⟩ := member
  cases kind with
  | reference pointer => exact ⟨pointer, nullable, description, rfl⟩
  | _ => cases h

theorem pointers_cons_of_not_isReference {member : Shape} (h : member.isReference = false)
    (members : List Shape) : pointers (member :: members) = pointers members := by
  obtain ⟨kind, nullable, description⟩ := member
  cases kind with
  | reference pointer => cases h
  | _ => rfl

theorem filter_eq_self_of_pointers_eq_nil {members : List Shape} (h : pointers members = []) :
    (members.filter fun member => !member.isReference) = members := by
  refine List.filter_eq_self.mpr fun member hmem => ?_
  cases hreference : member.isReference with
  | false => rfl
  | true =>
    obtain ⟨pointer, nullable, description, rfl⟩ := exists_eq_of_isReference hreference
    cases List.filterMap_eq_nil_iff.mp h _ hmem

/-- The members are the reference to the base and, before or after it, the other member. -/
theorem ExtendsBase.exists_reference {root : Json} {nullable : Bool} {members : List Shape}
    {pointer : String} {extra : Option Shape}
    (h : ExtendsBase root nullable members pointer extra) :
    ∃ reference, reference.kind = .reference pointer ∧
      (members = reference :: extra.toList ∨
        ∃ other, extra = some other ∧ members = [other, reference]) := by
  obtain ⟨-, hpointers, hothers, -, -⟩ := h
  cases members with
  | nil => cases hpointers
  | cons first rest =>
    cases hfirst : first.isReference with
    | true =>
      obtain ⟨other, nullable, description, rfl⟩ := exists_eq_of_isReference hfirst
      obtain ⟨rfl, hrest⟩ := List.cons.inj hpointers
      refine ⟨_, rfl, Or.inl (congrArg _ ?_)⟩
      exact (filter_eq_self_of_pointers_eq_nil hrest).symm.trans hothers
    | false =>
      rw [pointers_cons_of_not_isReference hfirst] at hpointers
      rw [List.filter_cons_of_pos (by rw [hfirst]; rfl)] at hothers
      obtain ⟨rfl, hnone⟩ : extra = some first ∧
          (rest.filter fun member => !member.isReference) = [] := by
        cases extra with
        | none => cases hothers
        | some other =>
          obtain ⟨rfl, hnone⟩ := List.cons.inj hothers
          exact ⟨rfl, hnone⟩
      cases rest with
      | nil => cases hpointers
      | cons second rest =>
        have hsecond : second.isReference = true := by
          simpa using List.filter_eq_nil_iff.mp hnone second List.mem_cons_self
        obtain ⟨other, nullable, description, rfl⟩ := exists_eq_of_isReference hsecond
        obtain ⟨rfl, hrest⟩ := List.cons.inj hpointers
        obtain rfl : rest = [] := (filter_eq_self_of_pointers_eq_nil hrest).symm.trans hnone
        exact ⟨_, rfl, Or.inr ⟨first, rfl, rfl⟩⟩

/-- There is no other reference among them. -/
theorem ExtendsBase.eq_of_isReference {root : Json} {nullable : Bool} {members : List Shape}
    {pointer : String} {extra : Option Shape}
    (h : ExtendsBase root nullable members pointer extra) {reference other : Shape}
    (hmem : reference ∈ members) (hreference : reference.isReference = true)
    (hother : other ∈ members) (hisReference : other.isReference = true) : other = reference := by
  obtain ⟨base, -, hmembers⟩ := h.exists_reference
  have hbase : ∀ member ∈ members, member.isReference = true → member = base := by
    intro member hmember hisReference
    by_contra hne
    have hextra : member ∈ extra.toList := by
      rcases hmembers with rfl | ⟨extra, rfl, rfl⟩
      · exact (List.mem_cons.mp hmember).resolve_left hne
      · exact List.mem_singleton.mpr ((List.mem_pair.mp hmember).resolve_right hne)
    rw [← h.others_eq, List.mem_filter, hisReference] at hextra
    cases hextra.2
  exact (hbase other hother hisReference).trans (hbase reference hmem hreference).symm

section Runs

variable {scope : Scope} {before after : Progress} {name pointer : String}

/-- A body is written from a shape that can be one, and from nothing. -/
theorem interfaceBody_cases {extra : Option Shape} {result : Option InterfaceBody}
    (h : interfaceBody name extra scope before = (.ok result, after)) :
    (∃ body, result = some body ∧ ∀ other, extra = some other → other.isBody = true) ∨
      (result = none ∧ after = before ∧ ∃ other, extra = some other ∧ other.isBody = false) := by
  rw [interfaceBody.eq_def] at h
  split at h
  · obtain ⟨rfl, -⟩ := Session.pure_eq_ok.mp h
    exact Or.inl ⟨_, rfl, fun _ hnone => nomatch hnone⟩
  next extra =>
    obtain ⟨kind, nullable, description⟩ := extra
    simp only at h
    split at h
    · obtain ⟨rfl, -⟩ := Session.pure_eq_ok.mp h
      refine Or.inl ⟨_, rfl, fun _ hother => ?_⟩
      rw [← Option.some.inj hother]
      rfl
    · split at h
      next htyped =>
        obtain ⟨rfl, rfl⟩ := Session.pure_eq_ok.mp h
        refine Or.inr ⟨rfl, rfl, _, rfl, ?_⟩
        simp only [Shape.isBody, htyped, Bool.not_true, Bool.and_false]
      next htyped =>
        simp only [Session.bind_eq_ok, Session.pure_eq_ok] at h
        obtain ⟨_, _, _, rfl, _⟩ := h
        refine Or.inl ⟨_, rfl, fun _ hother => ?_⟩
        rw [← Option.some.inj hother]
        simp only [Shape.isBody, eq_false_of_ne_true htyped, Bool.not_false, Bool.and_true]
    next hunknown hobject =>
      obtain ⟨rfl, rfl⟩ := Session.pure_eq_ok.mp h
      refine Or.inr ⟨rfl, rfl, _, rfl, ?_⟩
      cases nullable with
      | true => rfl
      | false =>
        cases kind with
        | unknown => exact (hunknown rfl rfl).elim
        | object entries required additional => exact (hobject _ _ _ rfl rfl).elim
        | _ => rfl

/-- The outcomes of trying to extend a base: the interface is written, or the base is reported, or
the other member is no body and nothing happens. -/
inductive ExtendedAs (scope : Scope) (name base : String) (target : Shape) (extra : Option Shape)
    (before after : Progress) : Option DeclarationKind → Prop
  | interface {body : InterfaceBody} (hextendable : target.isExtendable = true)
    (hisBody : ∀ other, extra = some other → other.isBody = true)
    (hbody : interfaceBody name extra scope before = (.ok (some body), after)) :
    ExtendedAs scope name base target extra before after
      (some (.interface [base]
        (withBoundProperty scope.settings.propertyNameStyle (scope.bindingOf? name) body)
        body.index))
  | nonObject (hextendable : target.isExtendable = false)
    (hafter : after = before.report (.nonObjectBase base)) :
    ExtendedAs scope name base target extra before after none
  | nonBody (hextendable : target.isExtendable = true) {other : Shape} (hextra : extra = some other)
    (hother : other.isBody = false) (hafter : after = before) :
    ExtendedAs scope name base target extra before after none

/-- The base is looked up before anything else. -/
theorem extendedAs_of_extendingInterface {extra : Option Shape} {result : Option DeclarationKind}
    (h : extendingInterface name pointer extra scope before = (.ok result, after)) :
    ∃ base target, Pointer.shapeName scope.root pointer = .ok base ∧
      Pointer.resolve scope.root pointer = .ok target ∧
        ExtendedAs scope name base target extra before after result := by
  simp only [extendingInterface, Session.bind_eq_ok, Session.onRoot_eq_ok] at h
  obtain ⟨base, _, ⟨hbase, rfl⟩, target, _, ⟨htarget, rfl⟩, h⟩ := h
  refine ⟨base, target, hbase, htarget, ?_⟩
  split at h
  next hextendable =>
    simp only [Session.bind_eq_ok, Session.report_eq_ok, Session.pure_eq_ok] at h
    obtain ⟨_, _, rfl, rfl, rfl⟩ := h
    exact ExtendedAs.nonObject (by simpa using hextendable) rfl
  next hextendable =>
    have hextends : target.isExtendable = true := by simpa using hextendable
    rw [Session.bind_eq_ok] at h
    obtain ⟨body, between, hbody, h⟩ := h
    rcases interfaceBody_cases hbody with ⟨body, rfl, hisBody⟩ | ⟨rfl, rfl, other, rfl, hother⟩
    · simp only [Session.bind_eq_ok, Session.pure_eq_ok, Session.settings_eq_ok,
        Session.bindingOf?_eq_ok] at h
      obtain ⟨_, _, ⟨rfl, rfl⟩, _, _, ⟨rfl, rfl⟩, rfl, rfl⟩ := h
      exact ExtendedAs.interface hextends hisBody hbody
    · obtain ⟨rfl, rfl⟩ := Session.pure_eq_ok.mp h
      exact ExtendedAs.nonBody hextends rfl hother rfl

/-- An interface is written if its base can be extended and its body written. -/
theorem extendingInterface_cases {extra : Option Shape} {result : Option DeclarationKind}
    (h : extendingInterface name pointer extra scope before = (.ok result, after)) :
    (∃ base body target, Pointer.shapeName scope.root pointer = .ok base ∧
        Pointer.resolve scope.root pointer = .ok target ∧ target.isExtendable = true ∧
        (∀ other, extra = some other → other.isBody = true) ∧
        interfaceBody name extra scope before = (.ok (some body), after) ∧
        result = some (.interface [base]
          (withBoundProperty scope.settings.propertyNameStyle (scope.bindingOf? name) body)
          body.index)) ∨
      (result = none ∧ after.inlineEnums = before.inlineEnums ∧
        ∀ target, Pointer.resolve scope.root pointer = .ok target → target.isExtendable = true →
          ∃ other, extra = some other ∧ other.isBody = false) := by
  obtain ⟨base, target, hbase, htarget, hextended⟩ := extendedAs_of_extendingInterface h
  cases hextended with
  | interface hextendable hisBody hbody =>
    exact Or.inl ⟨base, _, target, hbase, htarget, hextendable, hisBody, hbody, rfl⟩
  | nonObject hextendable hafter =>
    have hinlineEnums : after.inlineEnums = before.inlineEnums := by
      rw [hafter]
      rfl
    refine Or.inr ⟨rfl, hinlineEnums, fun other hother hextends => ?_⟩
    obtain rfl := Except.ok.inj (htarget.symm.trans hother)
    exact absurd hextends (ne_true_of_eq_false hextendable)
  | nonBody hextendable hextra hother hafter =>
    exact Or.inr ⟨rfl, congrArg Progress.inlineEnums hafter, fun _ _ _ => ⟨_, hextra, hother⟩⟩

theorem shapeNames_inlineEnums {pointers names : List String}
    (h : shapeNames pointers scope before = (.ok names, after)) : after = before := by
  induction pointers generalizing names before with
  | nil => exact (Session.pure_eq_ok.mp h).2.symm
  | cons pointer pointers ih =>
    simp only [shapeNames, Session.bind_eq_ok, Session.pure_eq_ok, Session.onRoot_eq_ok] at h
    obtain ⟨_, _, ⟨_, rfl⟩, _, _, hothers, _, rfl⟩ := h
    exact ih hothers

/-- The outcomes of trying to write a composition as an interface: the interface is written, or the
composition does not extend a base and nothing was hoisted. -/
inductive ComposedAs (scope : Scope) (name : String) (nullable : Bool) (members : List Shape)
    (before after : Progress) : Option DeclarationKind → Prop
  | interface {pointer base : String} {extra : Option Shape} {body : InterfaceBody}
    (hextends : ExtendsBase scope.root nullable members pointer extra)
    (hbase : Pointer.shapeName scope.root pointer = .ok base)
    (hbody : interfaceBody name extra scope before = (.ok (some body), after)) :
    ComposedAs scope name nullable members before after
      (some (.interface [base]
        (withBoundProperty scope.settings.propertyNameStyle (scope.bindingOf? name) body)
        body.index))
  | other (hextends : ∀ pointer extra, ¬ ExtendsBase scope.root nullable members pointer extra)
    (hafter : after.inlineEnums = before.inlineEnums) :
    ComposedAs scope name nullable members before after none

/-- A composition with one named base and at most one other member. -/
theorem composedAs_of_extendingInterface {nullable : Bool} {members : List Shape}
    {result : Option DeclarationKind} (extra : Option Shape)
    (hpointers : pointers members = [pointer])
    (hothers : (members.filter fun member => !member.isReference) = extra.toList)
    (h : (if nullable then (pure none : Session (Option DeclarationKind))
      else extendingInterface name pointer extra) scope before = (.ok result, after)) :
    ComposedAs scope name nullable members before after result := by
  split at h
  next hnullable =>
    obtain ⟨rfl, rfl⟩ := Session.pure_eq_ok.mp h
    refine ComposedAs.other (fun _ _ hextends => ?_) rfl
    exact absurd hnullable (ne_true_of_eq_false hextends.nullable_eq)
  next hnullable =>
    rcases extendingInterface_cases h with
      ⟨base, body, target, hbase, htarget, hextendable, hisBody, hbody, rfl⟩ |
        ⟨rfl, hafter, hnone⟩
    · exact ComposedAs.interface ⟨eq_false_of_ne_true hnullable, hpointers, hothers,
        ⟨target, htarget, hextendable⟩, hisBody⟩ hbase hbody
    · refine ComposedAs.other (fun other others hextends => ?_) hafter
      obtain ⟨target, htarget, hextendable⟩ := hextends.extendable
      obtain rfl : pointer = other :=
        List.singleton_inj.mp (hpointers.symm.trans hextends.pointers_eq)
      obtain ⟨shape, rfl, hshape⟩ := hnone target htarget hextendable
      have hmem : shape ∈ others.toList := by
        rw [← hextends.others_eq, hothers]
        exact List.mem_singleton_self shape
      exact absurd (hextends.isBody shape (Option.mem_toList.mp hmem)) (ne_true_of_eq_false hshape)

/-- **A composition is written as an interface exactly if it extends a base.** -/
theorem composedAs_of_composedInterface {nullable : Bool} {members : List Shape}
    {result : Option DeclarationKind}
    (h : composedInterface name nullable members scope before = (.ok result, after)) :
    ComposedAs scope name nullable members before after result := by
  rw [composedInterface.eq_def] at h
  rcases hpointers : pointers members with _ | ⟨pointer, _ | ⟨second, rest⟩⟩ <;>
    rw [hpointers] at h
  · obtain ⟨rfl, rfl⟩ := Session.pure_eq_ok.mp h
    refine ComposedAs.other (fun _ _ hextends => ?_) rfl
    cases hpointers.symm.trans hextends.pointers_eq
  · rcases hothers : members.filter fun member => !member.isReference with
      _ | ⟨extra, _ | ⟨other, others⟩⟩ <;> rw [hothers] at h
    · exact composedAs_of_extendingInterface none hpointers hothers h
    · exact composedAs_of_extendingInterface (some extra) hpointers hothers h
    · obtain ⟨rfl, rfl⟩ := Session.pure_eq_ok.mp h
      refine ComposedAs.other (fun _ extra hextends => ?_) rfl
      have hlong := hothers.symm.trans hextends.others_eq
      cases extra <;> cases hlong
  · simp only [Session.bind_eq_ok, Session.pure_eq_ok, Session.report_eq_ok] at h
    obtain ⟨_, _, hnames, _, _, rfl, rfl, rfl⟩ := h
    obtain rfl := shapeNames_inlineEnums hnames
    refine ComposedAs.other (fun _ _ hextends => ?_) rfl
    cases hpointers.symm.trans hextends.pointers_eq

end Runs

end ApiScribe.Shape
