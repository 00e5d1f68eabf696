import ApiScribe.Document.Text
import ApiScribe.Proofs.Extension
import ApiScribe.Proofs.Meaning
import ApiScribe.Proofs.TypeEffects

/-!
# Giving up an extension

A composition of a base and at most one other member is declared as an interface that extends the
base, unless the base cannot be extended or the other member cannot be a body.  Then an intersection
is declared.  This module says what is reported in that case (`Shape.declaration_fallback`).

A base that cannot be extended is always reported.  The other member is not: it is only written as a
type, and unless that has something to report (`Shape.memberEffects`) the fallback is silent.  A
string next to a base is such a member (`exists_silent_fallback`).
-/

namespace ApiScribe

open TypeScript

/-- Does the declaration extend a base, and nothing else? -/
def TypeScript.DeclarationKind.Extends (base : String) (kind : DeclarationKind) : Prop :=
  ∃ properties index, kind = .interface [base] properties index

namespace Shape

/-! ## The effects of writing members -/

/-- What writing a member of a composition that a named shape consists of does. -/
def memberEffects (binding : Option Binding) (name : String) (member : Shape) : List Effect :=
  match member.kind with
  | .object declared _ additional =>
    if declared.isEmpty then typeEffects (some name) none member
    else closedObjectEffects (propertyEffects (some name) binding declared) additional
      (typedEffects (some name) additional)
  | _ => typeEffects (some name) none member

/-- References do nothing. -/
theorem memberEffects_of_isReference {member : Shape} (h : member.isReference = true)
    (binding : Option Binding) (name : String) : memberEffects binding name member = [] := by
  obtain ⟨pointer, nullable, description, rfl⟩ := exists_eq_of_isReference h
  rfl

/-- So the effects of all members are those of the members that are no references. -/
theorem flatMap_memberEffects (binding : Option Binding) (name : String) (members : List Shape) :
    members.flatMap (memberEffects binding name) =
      (members.filter fun member => !member.isReference).flatMap (memberEffects binding name) := by
  induction members with
  | nil => rfl
  | cons member members ih =>
    rw [List.flatMap_cons, ih]
    cases hreference : member.isReference with
    | true =>
      rw [memberEffects_of_isReference hreference, List.filter_cons_of_neg (by simp [hreference])]
      rfl
    | false => rw [List.filter_cons_of_pos (by simp [hreference]), List.flatMap_cons]

section Leaves

open Session

variable {scope : Scope} {name : String}

/-- The binding of the owner is known from the start. -/
theorem properties_leaves (parent : Option String) (owner : String) (required : List String)
    (declared : List (String × Shape)) :
    Leaves scope (propertyEffects parent (scope.bindingOf? owner) declared)
      (properties parent (some owner) required declared) := by
  intro before result after h
  obtain ⟨binding, between, hbinding, h⟩ := bind_eq_ok.mp h
  obtain ⟨rfl, rfl⟩ := bindingOf?_eq_ok.mp hbinding
  exact propertyTypes_leaves (fun entry _ => type_leaves entry.2 parent) h

theorem ownObjectType_leaves (declared : List (String × Shape)) (required : List String)
    (additional : AdditionalValues) :
    Leaves scope
      (closedObjectEffects (propertyEffects (some name) (scope.bindingOf? name) declared) additional
        (typedEffects (some name) additional))
      (ownObjectType name declared required additional) := by
  have hproperties : Leaves scope _ (properties (some name) (some name) required declared) :=
    properties_leaves (some name) name required declared
  refine closedObjectType_leaves hproperties ?_ additional
  cases additional with
  | typed values => exact type_leaves values (some name) none
  | _ => exact leaves_pure _

theorem memberType_leaves (member : Shape) :
    Leaves scope (memberEffects (scope.bindingOf? name) name member) (memberType name member) := by
  obtain ⟨kind, nullable, description⟩ := member
  cases kind with
  | object declared required additional =>
    simp only [memberType, memberEffects]
    split
    · exact type_leaves _ _ _
    · exact leaves_settings.bind fun _ => (ownObjectType_leaves declared required additional).map _
  | _ => exact type_leaves _ _ _

theorem memberTypes_leaves (members : List Shape) :
    Leaves scope (members.flatMap (memberEffects (scope.bindingOf? name) name))
      (memberTypes name members) := by
  induction members with
  | nil => exact leaves_pure _
  | cons member members ih => exact (memberType_leaves member).bind fun _ => ih.map _

end Leaves

/-! ## The fallback -/

section Fallback

variable {scope : Scope} {before after : Progress} {name pointer : String} {members : List Shape}
  {extra : Option Shape}

/-- With one reference and at most one other member, the interface is tried. -/
theorem composedInterface_eq (hpointers : pointers members = [pointer])
    (hothers : (members.filter fun member => !member.isReference) = extra.toList) :
    composedInterface name false members = extendingInterface name pointer extra := by
  rw [composedInterface.eq_def, hpointers, hothers]
  cases extra <;> rfl

/-- What declaring a composition with a base does that is not written as an interface. -/
def fallbackEffects (binding : Option Binding) (name base : String) (target : Shape)
    (extra : Option Shape) : List Effect :=
  (if target.isExtendable then [] else [.report (.nonObjectBase base)]) ++
    extra.toList.flatMap (memberEffects binding name)

/-- The base is extended, or an alias is declared, with the effects of the fallback. -/
theorem compositionKind_cases {kind : DeclarationKind} (hpointers : pointers members = [pointer])
    (hothers : (members.filter fun member => !member.isReference) = extra.toList)
    (h : compositionKind name false members scope before = (.ok kind, after)) :
    ∃ base target, Pointer.shapeName scope.root pointer = .ok base ∧
      Pointer.resolve scope.root pointer = .ok target ∧
      ((kind.Extends base ∧ target.isExtendable = true ∧
          ∀ other, extra = some other → other.isBody = true) ∨
        ((∃ type, kind = .alias type) ∧
          (target.isExtendable = true → ∃ other, extra = some other ∧ other.isBody = false) ∧
          after = before.performAll scope.shapeNames
            (fallbackEffects (scope.bindingOf? name) name base target extra))) := by
  rw [compositionKind, composedInterface_eq hpointers hothers, Session.bind_eq_ok] at h
  obtain ⟨result, between, hresult, h⟩ := h
  obtain ⟨base, target, hbase, htarget, hextended⟩ := extendedAs_of_extendingInterface hresult
  refine ⟨base, target, hbase, htarget, ?_⟩
  -- without an interface the members are written from where the attempt ended
  have hmembers : result = none → (∃ type, kind = .alias type) ∧
      after = between.performAll scope.shapeNames
        (extra.toList.flatMap (memberEffects (scope.bindingOf? name) name)) := by
    rintro rfl
    simp only [Session.bind_eq_ok, Session.settings_eq_ok, Session.pure_eq_ok] at h
    obtain ⟨_, _, ⟨-, rfl⟩, _, _, htypes, rfl, rfl⟩ := h
    rw [← hothers, ← flatMap_memberEffects]
    exact ⟨⟨_, rfl⟩, memberTypes_leaves members htypes⟩
  cases hextended with
  | interface hextendable hisBody hbody =>
    obtain ⟨rfl, -⟩ := Session.pure_eq_ok.mp h
    exact Or.inl ⟨⟨_, _, rfl⟩, hextendable, hisBody⟩
  | nonObject hextendable hafter =>
    obtain ⟨halias, heffects⟩ := hmembers rfl
    refine Or.inr ⟨halias, fun hextends => absurd hextends (ne_true_of_eq_false hextendable), ?_⟩
    rw [heffects, hafter, fallbackEffects, hextendable, Progress.performAll_append]
    rfl
  | nonBody hextendable hextra hother hafter =>
    obtain ⟨halias, heffects⟩ := hmembers rfl
    refine Or.inr ⟨halias, fun _ => ⟨_, hextra, hother⟩, ?_⟩
    rw [heffects, hafter, fallbackEffects, hextendable, if_pos rfl, List.nil_append]

/-- The fallback reports nothing exactly if the base can be extended and writing the other member
reports nothing. -/
theorem reportedAll_fallbackEffects_eq_nil {shapeNames : List String} {binding : Option Binding}
    {base : String} {target : Shape} {progress : Progress} :
    Progress.reportedAll shapeNames (fallbackEffects binding name base target extra) progress = [] ↔
      target.isExtendable = true ∧ ∀ other, extra = some other →
        Progress.reportedAll shapeNames (memberEffects binding name other) progress = [] := by
  rw [fallbackEffects, Progress.reportedAll_append, List.append_eq_nil_iff]
  cases target.isExtendable with
  | false => exact iff_of_false (fun h => List.cons_ne_nil _ _ h.1) fun h => Bool.false_ne_true h.1
  | true =>
    cases extra with
    | none => simp [Progress.reportedAll]
    | some other =>
      rw [Option.toList_some, List.flatMap_singleton]
      simp [Progress.reportedAll, Progress.performAll]

/-- What the fallback records is about the current subject, and says so if the base cannot be
extended. -/
theorem fallback_records (shapeNames : List String) (binding : Option Binding) (name base : String)
    (target : Shape) (extra : Option Shape) (progress : Progress) :
    ∃ recorded, (progress.performAll shapeNames
        (fallbackEffects binding name base target extra)).diagnostics =
          progress.diagnostics ++ recorded ∧
      (∀ diagnostic ∈ recorded, diagnostic.subject = progress.subject) ∧
      (target.isExtendable = false → ⟨progress.subject, .nonObjectBase base⟩ ∈ recorded) ∧
      (recorded = [] ↔ target.isExtendable = true ∧ ∀ other, extra = some other →
        Progress.reportedAll shapeNames (memberEffects binding name other) progress = []) := by
  refine ⟨_, Progress.performAll_diagnostics _ _, ?_, fun hextendable => ?_, ?_⟩
  · intro diagnostic hmem
    obtain ⟨_, -, rfl⟩ := List.mem_map.mp hmem
    rfl
  · refine List.mem_map.mpr ⟨_, ?_, rfl⟩
    rw [fallbackEffects, hextendable, Progress.reportedAll_append]
    exact List.mem_append_left _ (List.mem_singleton_self _)
  · rw [Progress.about, List.map_eq_nil_iff, reportedAll_fallbackEffects_eq_nil]

/-- **What is reported where a base is not extended.**  The shape is declared as an interface that
extends the base exactly if the base can be extended and the other member can be a body.  Otherwise
an alias is declared and everything that is recorded is about the shape.  A base that cannot be
extended is reported; for one that can, nothing is recorded at all if writing the other member
reports nothing. -/
theorem declaration_fallback {shape : Shape} {discriminator : Option Discriminator}
    {declaration : Declaration}
    (hkind : shape.kind = .composition .allOf members discriminator)
    (hnullable : shape.nullable = false) (hpointers : pointers members = [pointer])
    (hothers : (members.filter fun member => !member.isReference) = extra.toList)
    (h : Shape.declaration name shape scope before = (.ok declaration, after)) :
    ∃ base target, Pointer.shapeName scope.root pointer = .ok base ∧
      Pointer.resolve scope.root pointer = .ok target ∧
      (declaration.kind.Extends base ↔
        target.isExtendable = true ∧ ∀ other, extra = some other → other.isBody = true) ∧
      (¬ declaration.kind.Extends base →
        (∃ type, declaration.kind = .alias type) ∧
        ∃ recorded, after.diagnostics = before.diagnostics ++ recorded ∧
          (∀ diagnostic ∈ recorded, diagnostic.subject = name) ∧
          (target.isExtendable = false → ⟨name, .nonObjectBase base⟩ ∈ recorded) ∧
          (recorded = [] ↔ target.isExtendable = true ∧ ∃ other, extra = some other ∧
            other.isBody = false ∧ Progress.reportedAll scope.shapeNames
              (memberEffects (scope.bindingOf? name) name other)
              { before with subject := name } = [])) := by
  rw [Shape.declaration, Session.bind_eq_ok] at h
  obtain ⟨_, _, hsubject, h⟩ := h
  obtain rfl := Session.setSubject_eq_ok.mp hsubject
  simp only [declarationKind, hkind, hnullable, Session.bind_eq_ok, Session.pure_eq_ok] at h
  obtain ⟨kind, _, hcomposition, rfl, rfl⟩ := h
  obtain ⟨base, target, hbase, htarget, hcases⟩ :=
    compositionKind_cases hpointers hothers hcomposition
  rcases hcases with ⟨hextends, hextendable, hisBody⟩ | ⟨⟨type, rfl⟩, hnot, rfl⟩
  · refine ⟨base, target, hbase, htarget, iff_of_true hextends ⟨hextendable, hisBody⟩, ?_⟩
    exact fun hno => absurd hextends hno
  · have hno : ¬ (DeclarationKind.alias type).Extends base := by
      rintro ⟨_, _, hinterface⟩
      cases hinterface
    refine ⟨base, target, hbase, htarget, iff_of_false hno ?_, fun _ => ⟨⟨type, rfl⟩, ?_⟩⟩
    · rintro ⟨hextendable, hisBody⟩
      obtain ⟨other, hextra, hother⟩ := hnot hextendable
      exact absurd (hisBody other hextra) (ne_true_of_eq_false hother)
    · obtain ⟨recorded, hrecorded, hsubjects, hreported, hsilent⟩ := fallback_records
        scope.shapeNames (scope.bindingOf? name) name base target extra
        { before with subject := name }
      refine ⟨recorded, hrecorded, hsubjects, hreported, hsilent.trans ⟨?_, ?_⟩⟩
      · rintro ⟨hextendable, hnothing⟩
        obtain ⟨other, hextra, hother⟩ := hnot hextendable
        exact ⟨hextendable, other, hextra, hother, hnothing other hextra⟩
      · rintro ⟨hextendable, other, hextra, -, hnothing⟩
        refine ⟨hextendable, fun member hmember => ?_⟩
        rwa [Option.some.inj (hmember.symm.trans hextra)]

end Fallback

/-- A shape of a document that is not nullable and composed of one reference and one other member,
with its declaration in a session of its own. -/
structure DeclaredAlone (scope : Scope) (named : NamedShape) (pointer : String) (other : Shape)
    (declaration : Declaration) (after : Progress) : Prop where
  kind_eq : ∃ members discriminator, named.shape.kind = .composition .allOf members discriminator ∧
    pointers members = [pointer] ∧ (members.filter fun member => !member.isReference) = [other]
  nullable_eq : named.shape.nullable = false
  declaration_eq :
    Shape.declaration named.name named.shape scope {} = (.ok declaration, after)

/-- Does a text name such a shape, whose parts pass a check? -/
def declaresAlone (text : String)
    (check : NamedShape → Shape → Declaration → Progress → Bool) : Bool :=
  match Document.readAs .yaml text with
  | .error _ => false
  | .ok document =>
    match Scope.of document {} document.namedShapes with
    | .error _ => false
    | .ok scope => document.namedShapes.any fun named =>
      match named.shape.kind with
      | .composition .allOf members _ =>
        match pointers members, members.filter fun member => !member.isReference with
        | [_], [other] => !named.shape.nullable &&
          match Shape.declaration named.name named.shape scope {} with
          | (.ok declaration, after) => check named other declaration after
          | _ => false
        | _, _ => false
      | _ => false

theorem exists_of_declaresAlone {text : String}
    {check : NamedShape → Shape → Declaration → Progress → Bool}
    (h : declaresAlone text check = true) :
    ∃ document scope, Document.readAs .yaml text = .ok document ∧
      Scope.of document {} document.namedShapes = .ok scope ∧
      ∃ named ∈ document.namedShapes, ∃ pointer other declaration after,
        DeclaredAlone scope named pointer other declaration after ∧
          check named other declaration after = true := by
  rw [declaresAlone] at h
  split at h
  · cases h
  next document hread =>
    split at h
    · cases h
    next scope hscope =>
      obtain ⟨named, hnamed, h⟩ := List.any_eq_true.mp h
      refine ⟨document, scope, hread, hscope, named, hnamed, ?_⟩
      split at h
      next members discriminator hkind =>
        split at h
        next pointer other hpointers hothers =>
          obtain ⟨hnullable, h⟩ := Bool.and_eq_true_iff.mp h
          split at h
          next declaration after hdeclaration =>
            exact ⟨pointer, other, declaration, after,
              ⟨⟨members, discriminator, hkind, hpointers, hothers⟩, by simpa using hnullable,
                hdeclaration⟩, h⟩
          next => cases h
        next => cases h
      next => cases h

/-- An object next to a base that is an enumeration. -/
def shadedColor : String :=
  String.intercalate "\n"
    ["openapi: 3.0.0",
      "paths: \x7b\x7d",
      "components:",
      " schemas:",
      "  Color:",
      "   enum: [red, green]",
      "  Shade:",
      "   allOf:",
      "   - $ref: '#/components/schemas/Color'",
      "   - properties:",
      "      depth: \x7btype: integer\x7d"]

theorem declaration_fallback_shadedColor :
    ∃ document scope, Document.readAs .yaml shadedColor = .ok document ∧
      Scope.of document {} document.namedShapes = .ok scope ∧
      ∃ named ∈ document.namedShapes, ∃ pointer other declaration after,
        DeclaredAlone scope named pointer other declaration after ∧ named.name = "Shade" ∧
          ∃ base, ⟨"Shade", .nonObjectBase base⟩ ∈ after.diagnostics := by
  have hdeclares : declaresAlone shadedColor (fun named other declaration _ =>
      named.name = "Shade" && other.isBody && !declaration.kind.isInterface) = true := by
    decide +kernel
  obtain ⟨document, scope, hread, hscope, named, hnamed, pointer, other, declaration, after, halone,
    hcheck⟩ := exists_of_declaresAlone hdeclares
  simp only [Bool.and_eq_true, decide_eq_true_eq, Bool.not_eq_true'] at hcheck
  obtain ⟨⟨hname, hother⟩, hkind⟩ := hcheck
  obtain ⟨members, discriminator, hcomposition, hpointers, hothers⟩ := halone.kind_eq
  have hextra : (members.filter fun member => !member.isReference) = (some other).toList := hothers
  obtain ⟨base, target, -, -, hextends, hfallback⟩ :=
    declaration_fallback hcomposition halone.nullable_eq hpointers hextra halone.declaration_eq
  have hno : ¬ declaration.kind.Extends base := by
    rintro ⟨properties, index, hinterface⟩
    rw [hinterface] at hkind
    cases hkind
  -- the object can be a body, so it was the base that could not be extended
  have hextendable : target.isExtendable = false := by
    refine eq_false_of_ne_true fun hextendable => hno (hextends.mpr ⟨hextendable, ?_⟩)
    rintro _ ⟨⟩
    exact hother
  obtain ⟨-, recorded, hrecorded, -, hreported, -⟩ := hfallback hno
  refine ⟨document, scope, hread, hscope, named, hnamed, pointer, other, declaration, after, halone,
    hname, base, ?_⟩
  rw [hrecorded, ← hname]
  exact List.mem_append_right _ (hreported hextendable)

/-- A string next to a base that can be extended. -/
def taggedPet : String :=
  String.intercalate "\n"
    ["openapi: 3.0.0",
      "paths: \x7b\x7d",
      "components:",
      " schemas:",
      "  Pet:",
      "   type: object",
      "   properties:",
      "    name:",
      "     type: string",
      "  Tagged:",
      "   allOf:",
      "   - $ref: '#/components/schemas/Pet'",
      "   - type: string"]

/-- **An extension can be given up in silence.**  An alias is declared and no diagnostic says so. -/
theorem exists_silent_fallback :
    ∃ document scope, Document.readAs .yaml taggedPet = .ok document ∧
      Scope.of document {} document.namedShapes = .ok scope ∧
      ∃ named ∈ document.namedShapes, ∃ pointer other declaration after,
        DeclaredAlone scope named pointer other declaration after ∧ named.name = "Tagged" ∧
          (∀ base, ¬ declaration.kind.Extends base) ∧ after.diagnostics = [] := by
  have hdeclares : declaresAlone taggedPet (fun named _ declaration after =>
      named.name = "Tagged" && !declaration.kind.isInterface && after.diagnostics.isEmpty) =
      true := by
    decide +kernel
  obtain ⟨document, scope, hread, hscope, named, hnamed, pointer, other, declaration, after, halone,
    hcheck⟩ := exists_of_declaresAlone hdeclares
  simp only [Bool.and_eq_true, decide_eq_true_eq, Bool.not_eq_true', List.isEmpty_iff] at hcheck
  obtain ⟨⟨hname, hkind⟩, hdiagnostics⟩ := hcheck
  refine ⟨document, scope, hread, hscope, named, hnamed, pointer, other, declaration, after, halone,
    hname, ?_, hdiagnostics⟩
  rintro base ⟨properties, index, hinterface⟩
  rw [hinterface] at hkind
  cases hkind

end Shape

end ApiScribe
