import ApiScribe.Proofs.Layout
import Mathlib.Data.Fintype.Card
import Mathlib.Data.Set.Finite.Lattice
import Mathlib.Logic.Relation

/-!
# Types of objects

Whether a shape describes objects need not show in the shape itself.  A reference leaves it to the
shape that it leads to, and a composition of shapes that hold all at once leaves it to its members.
`Shape.IsObjectType` follows all of this: `$ref` by `$ref`, and member by member.

`Shape.LooksLikeObjects` is what can be seen without following anything.  A shape that looks like
objects but is no type of objects conceals something (`Shape.Conceals`), and there are two ways in
which it can: behind it, any number of steps away, is a shape that does not even look like objects, or
what is behind it leads back to itself, so that there is never an object.

* `isObjectType_iff` says that there is no third way, as long as all references lead somewhere and
  only finitely many shapes are behind the shape.
* `Run.exists_holder` says that both are true of the named shapes of a document with an output.
  Whatever is behind one of them is a member, at some depth, of a named shape.
-/

namespace ApiScribe

open TypeScript Relation

/-- The kinds of shapes that may describe objects: objects, and the kinds that leave it to others. -/
inductive ShapeKind.MayBeObject : ShapeKind → Prop
  | object (entries : List (String × Shape)) (required : List String)
    (additional : AdditionalValues) : MayBeObject (.object entries required additional)
  | reference (pointer : String) : MayBeObject (.reference pointer)
  | allOf (members : List Shape) (discriminator : Option Discriminator) :
    MayBeObject (.composition .allOf members discriminator)

namespace Shape

variable {root : Json} {shape next hidden member : Shape}

/-- As it stands, the shape may describe objects, and it does not admit null. -/
def LooksLikeObjects (shape : Shape) : Prop :=
  shape.nullable = false ∧ shape.kind.MayBeObject

/-- The shape describes objects, whatever references in it lead to. -/
inductive IsObjectType (root : Json) : Shape → Prop
  | object (entries : List (String × Shape)) (required : List String)
    (additional : AdditionalValues) (description : Option String) :
    IsObjectType root ⟨.object entries required additional, false, description⟩
  | reference {pointer : String} {target : Shape} {description : Option String}
    (hresolve : Pointer.resolve root pointer = .ok target) (h : IsObjectType root target) :
    IsObjectType root ⟨.reference pointer, false, description⟩
  | allOf {members : List Shape} {discriminator : Option Discriminator}
    {description : Option String} (h : ∀ member ∈ members, IsObjectType root member) :
    IsObjectType root ⟨.composition .allOf members discriminator, false, description⟩

/-- The shape is a composition of shapes that hold all at once, and one of them is the member. -/
inductive HasMember : Shape → Shape → Prop
  | intro {members : List Shape} {discriminator : Option Discriminator} {nullable : Bool}
    {description : Option String} {member : Shape} (hmem : member ∈ members) :
    HasMember ⟨.composition .allOf members discriminator, nullable, description⟩ member

/-- Whether the shape describes objects is left to the next one. -/
inductive LeavesTo (root : Json) : Shape → Shape → Prop
  | target {pointer : String} {nullable : Bool} {description : Option String} {target : Shape}
    (hresolve : Pointer.resolve root pointer = .ok target) :
    LeavesTo root ⟨.reference pointer, nullable, description⟩ target
  | member {shape member : Shape} (h : shape.HasMember member) : LeavesTo root shape member

/-- The shape hides something that is no object: it looks like objects itself, but behind it is a
shape that does not, or one that is behind itself. -/
def Conceals (root : Json) (shape : Shape) : Prop :=
  shape.LooksLikeObjects ∧ ∃ hidden, ReflTransGen (LeavesTo root) shape hidden ∧
    (¬ hidden.LooksLikeObjects ∨ TransGen (LeavesTo root) hidden hidden)

/-! ## Following a type of objects -/

theorem IsObjectType.looksLikeObjects (h : shape.IsObjectType root) : shape.LooksLikeObjects := by
  cases h with
  | object => exact ⟨rfl, .object _ _ _⟩
  | reference => exact ⟨rfl, .reference _⟩
  | allOf => exact ⟨rfl, .allOf _ _⟩

theorem IsObjectType.of_leavesTo (h : shape.IsObjectType root) (hnext : shape.LeavesTo root next) :
    next.IsObjectType root := by
  cases hnext with
  | target hresolve =>
    cases h with
    | reference hother h =>
      obtain rfl := Except.ok.inj (hother.symm.trans hresolve)
      exact h
  | member hmember =>
    obtain ⟨hmem⟩ := hmember
    cases h with
    | allOf h => exact h _ hmem

theorem IsObjectType.of_behind (h : shape.IsObjectType root)
    (hbehind : ReflTransGen (LeavesTo root) shape hidden) : hidden.IsObjectType root := by
  induction hbehind with
  | refl => exact h
  | tail _ hnext ih => exact ih.of_leavesTo hnext

/-- A circle can be entered at any shape on it. -/
theorem exists_next_of_circle (hcircle : TransGen (LeavesTo root) shape shape) :
    ∃ next, shape.LeavesTo root next ∧ TransGen (LeavesTo root) next next := by
  obtain ⟨next, hnext, hback⟩ := TransGen.head'_iff.mp hcircle
  exact ⟨next, hnext, TransGen.tail' hback hnext⟩

/-- Following a type of objects ends, so that it is never behind itself. -/
theorem IsObjectType.not_circle (h : shape.IsObjectType root) :
    ¬ TransGen (LeavesTo root) shape shape := by
  induction h with
  | object =>
    intro hcircle
    obtain ⟨_, hnext, -⟩ := exists_next_of_circle hcircle
    cases hnext with
    | member hmember => cases hmember
  | reference hresolve _ ih =>
    intro hcircle
    obtain ⟨_, hnext, hcircle⟩ := exists_next_of_circle hcircle
    cases hnext with
    | target hother =>
      obtain rfl := Except.ok.inj (hresolve.symm.trans hother)
      exact ih hcircle
    | member hmember => cases hmember
  | allOf _ ih =>
    intro hcircle
    obtain ⟨_, hnext, hcircle⟩ := exists_next_of_circle hcircle
    cases hnext with
    | member hmember =>
      obtain ⟨hmem⟩ := hmember
      exact ih _ hmem hcircle

/-! ## Nothing else can be behind a shape -/

/-- A shape that looks like objects describes them if all shapes do that it leaves this to. -/
theorem isObjectType_of_leavesTo (hlooks : shape.LooksLikeObjects)
    (hresolve : ∀ pointer, shape.kind = .reference pointer →
      ∃ target, Pointer.resolve root pointer = .ok target)
    (h : ∀ next, shape.LeavesTo root next → next.IsObjectType root) : shape.IsObjectType root := by
  obtain ⟨kind, nullable, description⟩ := shape
  obtain ⟨rfl, hkind⟩ := hlooks
  cases hkind with
  | object => exact .object _ _ _ _
  | reference pointer =>
    obtain ⟨target, htarget⟩ := hresolve pointer rfl
    exact .reference htarget (h target (.target htarget))
  | allOf => exact .allOf fun member hmem => h member (.member ⟨hmem⟩)

/-- What is behind a shape, the shape itself included. -/
def Behind (root : Json) (shape : Shape) : Type :=
  {hidden // ReflTransGen (LeavesTo root) shape hidden}

/-- One shape is reached from another one. -/
def Behind.IsAfter (later earlier : Behind root shape) : Prop :=
  TransGen (LeavesTo root) earlier.val later.val

/-- Without circles finitely many shapes are followed to the end. -/
theorem Behind.wellFounded_isAfter (hfinite : Finite (Behind root shape))
    (hcircle : ∀ hidden : Behind root shape, ¬ TransGen (LeavesTo root) hidden.val hidden.val) :
    WellFounded (@Behind.IsAfter root shape) := by
  have : IsTrans (Behind root shape) IsAfter := ⟨fun _ _ _ hlater hearlier => hearlier.trans hlater⟩
  have : Std.Irrefl (@Behind.IsAfter root shape) := ⟨hcircle⟩
  exact Finite.wellFounded_of_trans_of_irrefl _

theorem isObjectType_of_forall (hfinite : {hidden | ReflTransGen (LeavesTo root) shape hidden}.Finite)
    (hresolve : ∀ hidden, ReflTransGen (LeavesTo root) shape hidden →
      ∀ pointer, hidden.kind = .reference pointer →
        ∃ target, Pointer.resolve root pointer = .ok target)
    (h : ∀ hidden, ReflTransGen (LeavesTo root) shape hidden →
      hidden.LooksLikeObjects ∧ ¬ TransGen (LeavesTo root) hidden hidden) :
    shape.IsObjectType root := by
  have hwf : WellFounded (@Behind.IsAfter root shape) :=
    Behind.wellFounded_isAfter hfinite.to_subtype fun hidden => (h hidden.val hidden.property).2
  have hall : ∀ hidden : Behind root shape, hidden.val.IsObjectType root := by
    intro hidden
    induction hidden using hwf.induction with
    | h hidden ih =>
      obtain ⟨hidden, hbehind⟩ := hidden
      refine isObjectType_of_leavesTo (h hidden hbehind).1 (hresolve hidden hbehind) ?_
      intro next hnext
      exact ih ⟨next, hbehind.tail hnext⟩ (.single hnext)
  exact hall ⟨shape, .refl⟩

/-- **What a type of objects is**: a shape behind which everything looks like objects and nothing is
behind itself. -/
theorem isObjectType_iff (hfinite : {hidden | ReflTransGen (LeavesTo root) shape hidden}.Finite)
    (hresolve : ∀ hidden, ReflTransGen (LeavesTo root) shape hidden →
      ∀ pointer, hidden.kind = .reference pointer →
        ∃ target, Pointer.resolve root pointer = .ok target) :
    shape.IsObjectType root ↔ shape.LooksLikeObjects ∧ ¬ shape.Conceals root := by
  constructor
  · intro h
    refine ⟨h.looksLikeObjects, ?_⟩
    rintro ⟨-, hidden, hbehind, hno | hcircle⟩
    · exact hno (h.of_behind hbehind).looksLikeObjects
    · exact (h.of_behind hbehind).not_circle hcircle
  · rintro ⟨hlooks, hconceals⟩
    refine isObjectType_of_forall hfinite hresolve fun hidden hbehind => ⟨?_, fun hcircle => ?_⟩
    · by_contra hno
      exact hconceals ⟨hlooks, hidden, hbehind, Or.inl hno⟩
    · exact hconceals ⟨hlooks, hidden, hbehind, Or.inr hcircle⟩

/-! ## Members -/

/-- A shape that is no composition of shapes that hold all at once has itself as its only part. -/
theorem eq_of_members (hkind : ∀ members discriminator,
    shape.kind ≠ .composition .allOf members discriminator)
    (h : ReflTransGen HasMember shape hidden) : hidden = shape := by
  rcases h.cases_head with rfl | ⟨_, ⟨_⟩, -⟩
  · rfl
  · exact absurd rfl (hkind _ _)

theorem members_cases {members : List Shape} {discriminator : Option Discriminator} {nullable : Bool}
    {description : Option String}
    (h : ReflTransGen HasMember ⟨.composition .allOf members discriminator, nullable, description⟩
      hidden) :
    hidden = ⟨.composition .allOf members discriminator, nullable, description⟩ ∨
      ∃ member ∈ members, ReflTransGen HasMember member hidden := by
  rcases h.cases_head with rfl | ⟨member, ⟨hmem⟩, h⟩
  · exact Or.inl rfl
  · exact Or.inr ⟨member, hmem, h⟩

/-- A shape has finitely many members at any depth. -/
theorem finite_members (shape : Shape) : {hidden | ReflTransGen HasMember shape hidden}.Finite := by
  have hself : ∀ shape : Shape,
      (∀ members discriminator, shape.kind ≠ .composition .allOf members discriminator) →
        {hidden | ReflTransGen HasMember shape hidden}.Finite := fun shape hkind =>
    (Set.finite_singleton shape).subset fun _ h => eq_of_members hkind h
  induction shape using Shape.induct with
  | composition kind members discriminator nullable description ih =>
    cases kind with
    | allOf =>
      have hmembers : (⋃ member ∈ members, {hidden | ReflTransGen HasMember member hidden}).Finite :=
        Set.Finite.biUnion members.finite_toSet ih
      refine (hmembers.insert
        ⟨.composition .allOf members discriminator, nullable, description⟩).subset fun hidden h => ?_
      rcases members_cases h with heq | ⟨member, hmem, h⟩
      · exact Or.inl heq
      · exact Or.inr (Set.mem_biUnion hmem h)
    | _ => exact hself _ fun _ _ heq => by cases heq
  | _ => exact hself _ fun _ _ heq => by cases heq

/-! ## Members of shapes that were written -/

/-- All references among the members of the shape, at any depth, lead to shapes with names. -/
def HasNamedMembers (root : Json) (shape : Shape) : Prop :=
  ∀ hidden, ReflTransGen HasMember shape hidden → ∀ pointer, hidden.kind = .reference pointer →
    ∃ name, Pointer.shapeName root pointer = .ok name

theorem hasNamedMembers_allOf {members : List Shape} {discriminator : Option Discriminator}
    {nullable : Bool} {description : Option String}
    (h : ∀ member ∈ members, member.HasNamedMembers root) :
    HasNamedMembers root ⟨.composition .allOf members discriminator, nullable, description⟩ := by
  intro hidden hhidden pointer hkind
  rcases members_cases hhidden with rfl | ⟨member, hmem, hhidden⟩
  · cases hkind
  · exact h member hmem hidden hhidden pointer hkind

/-- A shape of another kind has nothing in it but itself. -/
theorem hasNamedMembers_of_kind (hkind : ∀ members discriminator,
      shape.kind ≠ .composition .allOf members discriminator)
    (h : ∀ pointer, shape.kind = .reference pointer →
      ∃ name, Pointer.shapeName root pointer = .ok name) : shape.HasNamedMembers root := by
  intro hidden hhidden
  rw [eq_of_members hkind hhidden]
  exact h

section Written

variable {scope : Scope} {final : Progress} {name : String}

theorem WrittenAs.hasNamedMembers {shape : Shape} {type : Ty} (h : WrittenAs scope final shape type) :
    shape.HasNamedMembers scope.root := by
  intro hidden hhidden
  induction hhidden using ReflTransGen.head_induction_on generalizing type with
  | refl =>
    intro pointer hkind
    obtain ⟨core, hcore, -⟩ := h.cases
    rw [hkind] at hcore
    cases hcore with
    | reference hname => exact ⟨_, hname⟩
  | head hmember _ ih =>
    obtain ⟨hmem⟩ := hmember
    obtain ⟨core, hcore, -⟩ := h.cases
    cases hcore with
    | composition htypes =>
      obtain ⟨_, -, hwritten⟩ := exists_of_forall₂_left htypes hmem
      exact ih hwritten

theorem MemberWrittenAs.hasNamedMembers {member : Shape} {type : Ty}
    (h : MemberWrittenAs scope final name member type) : member.HasNamedMembers scope.root := by
  cases h with
  | own =>
    refine hasNamedMembers_of_kind (fun _ _ heq => ?_) (fun _ heq => ?_) <;> cases heq
  | other _ htype => exact htype.hasNamedMembers

/-- What is declared has been written, down to the references in it. -/
theorem DeclaredAs.hasNamedMembers {shape : Shape} {kind : DeclarationKind}
    (h : DeclaredAs scope final name shape kind) : shape.HasNamedMembers scope.root := by
  cases h with
  | extension hpointers hextra hbase _ _ hbody =>
    refine hasNamedMembers_allOf fun member hmem => ?_
    cases hreference : member.isReference with
    | true =>
      obtain ⟨pointer, _, _, rfl⟩ := exists_eq_of_isReference hreference
      have hpointer : pointer ∈ pointers _ := List.mem_filterMap.mpr ⟨_, hmem, rfl⟩
      rw [hpointers, List.mem_singleton] at hpointer
      refine hasNamedMembers_of_kind (fun _ _ heq => ?_) (fun other heq => ?_)
      · cases heq
      · obtain rfl := ShapeKind.reference.inj heq
        exact ⟨_, hpointer ▸ hbase⟩
    | false =>
      have hother : member ∈ List.filter (fun member => !member.isReference) _ :=
        List.mem_filter.mpr ⟨hmem, by rw [hreference]; rfl⟩
      rw [hextra] at hother
      obtain rfl := Option.mem_toList.mp hother
      refine hasNamedMembers_of_kind (fun _ _ heq => ?_) (fun _ heq => ?_) <;>
        cases hbody <;> cases heq
  | intersection htypes =>
    refine hasNamedMembers_allOf fun member hmem => ?_
    obtain ⟨_, -, hwritten⟩ := exists_of_forall₂_left htypes hmem
    exact hwritten.hasNamedMembers
  | plain _ htype => exact htype.hasNamedMembers
  | _ => refine hasNamedMembers_of_kind (fun _ _ heq => ?_) (fun _ heq => ?_) <;> cases heq

end Written

end Shape

/-! ## What is behind the shapes of a document -/

namespace Output.Run

variable {document : Document} {settings : Settings} {output : Output} {named : NamedShape}
  {hidden : Shape}

/-- The references among the members of named shapes lead to named shapes. -/
theorem exists_target (run : Run document settings output) (hdocument : document.WasRead)
    (hnamed : named ∈ document.namedShapes) (hhidden : ReflTransGen Shape.HasMember named.shape hidden)
    {pointer : String} (hkind : hidden.kind = .reference pointer) :
    ∃ target ∈ document.namedShapes, Pointer.resolve document.root pointer = .ok target.shape := by
  obtain ⟨_, -, -, hdeclared⟩ := run.exists_declaration hnamed
  obtain ⟨name, hname⟩ := hdeclared.hasNamedMembers hidden hhidden pointer hkind
  rw [run.root_eq] at hname
  obtain ⟨shape, hmem, hresolve⟩ := hdocument.exists_namedShape hname
  exact ⟨⟨name, shape⟩, hmem, hresolve⟩

/-- What is behind a named shape is a member of a named shape. -/
theorem exists_holder (run : Run document settings output) (hdocument : document.WasRead)
    (hnamed : named ∈ document.namedShapes)
    (h : ReflTransGen (Shape.LeavesTo document.root) named.shape hidden) :
    ∃ holder ∈ document.namedShapes, ReflTransGen Shape.HasMember holder.shape hidden := by
  induction h with
  | refl => exact ⟨named, hnamed, .refl⟩
  | tail _ hnext ih =>
    obtain ⟨holder, hholder, hhidden⟩ := ih
    cases hnext with
    | target hresolve =>
      obtain ⟨target, htarget, hother⟩ := run.exists_target hdocument hholder hhidden rfl
      obtain rfl := Except.ok.inj (hother.symm.trans hresolve)
      exact ⟨target, htarget, .refl⟩
    | member hmember => exact ⟨holder, hholder, hhidden.tail hmember⟩

/-- **A named shape that looks like objects describes them or conceals something.** -/
theorem isObjectType_iff (run : Run document settings output) (hdocument : document.WasRead)
    (hnamed : named ∈ document.namedShapes) :
    named.shape.IsObjectType document.root ↔
      named.shape.LooksLikeObjects ∧ ¬ named.shape.Conceals document.root := by
  refine Shape.isObjectType_iff ?_ fun hidden h pointer hkind => ?_
  · refine (Set.Finite.biUnion document.namedShapes.finite_toSet fun holder _ =>
      holder.shape.finite_members).subset fun hidden h => ?_
    obtain ⟨holder, hholder, hhidden⟩ := run.exists_holder hdocument hnamed h
    exact Set.mem_biUnion hholder hhidden
  · obtain ⟨holder, hholder, hhidden⟩ := run.exists_holder hdocument hnamed h
    obtain ⟨target, -, hresolve⟩ := run.exists_target hdocument hholder hhidden hkind
    exact ⟨target.shape, hresolve⟩

end Output.Run

end ApiScribe
