import ApiScribe.Proofs.Extension
import ApiScribe.Proofs.TypeOfShape

/-!
# How a named shape is declared

The same for declarations as `TypeOfShape` says for types.

* `declaration_holds` lifts a property of steps to whole declarations, and `declaration_keeps` a
  stable relation that hoisting keeps.
* `DeclaredAs` lists the ways in which a shape is declared, one for each route that a shape can
  take, with what was checked on the way, and `declaredAs_of_declaration` says that there are no
  others.
* An enumeration is declared without looking at anything but the settings
  (`enumerationDeclaration`), so hoisted enumerations can be declared at any time.
-/

namespace ApiScribe

open TypeScript

namespace Shape

/-! ## What holds of declaring a shape -/

/-- The declaration of an enumeration. -/
def enumerationDeclaration (settings : Settings) (values : List EnumValue) (nullable : Bool) :
    DeclarationKind :=
  .enumeration
    (if settings.enumStyle = .native && (nullable || !values.all EnumValue.isNative) then .union
      else settings.enumStyle)
    (EnumValue.members values)
    (if nullable then some settings.nullableType.bottom else none)

theorem ownObjectType_eq (name : String) (declared : List (String × Shape))
    (required : List String) (additional : AdditionalValues) :
    ownObjectType name declared required additional =
      closedObjectType (properties (some name) (some name) required declared) additional
        (typedValues (some name) additional) := by
  cases additional <;> rfl

/-- The properties that are written for a named shape itself: those of an object, and those of the
objects that a composition consists of. -/
def ownProperties (shape : Shape) : List (String × Shape) :=
  match shape.kind with
  | .object entries _ _ => entries
  | .composition .allOf members _ => members.flatMap fun member => match member.kind with
    | .object entries _ _ => entries
    | _ => []
  | _ => []

theorem mem_ownProperties_of_mem {members : List Shape} {discriminator : Option Discriminator}
    {nullable : Bool} {description : Option String} {member : Shape}
    {entries : List (String × Shape)} {required : List String} {additional : AdditionalValues}
    (hmember : member ∈ members) (hkind : member.kind = .object entries required additional)
    {entry : String × Shape} (hentry : entry ∈ entries) :
    entry ∈ ownProperties ⟨.composition .allOf members discriminator, nullable, description⟩ := by
  refine List.mem_flatMap.mpr ⟨member, hmember, ?_⟩
  rw [hkind]
  exact hentry

section Holds

variable {P : ∀ {α : Type}, Session α → Prop} (hP : Session.Closed P)
include hP

theorem enumerationKind_holds (values : List EnumValue) (nullable : Bool) :
    P (enumerationKind values nullable) := by
  refine hP.bind hP.settings fun settings => ?_
  show P (if _ then _ else _)
  split
  · exact hP.bind (hP.reported _) fun _ => hP.pure _
  · exact hP.pure _

theorem shapeNames_holds (pointers : List String) : P (shapeNames pointers) := by
  induction pointers with
  | nil => exact hP.pure _
  | cons pointer pointers ih => exact hP.bind (hP.shapeName _) fun _ => hP.bind ih fun _ => hP.pure _

variable {name : String} (hname : HoistHolds P (some name))
include hname

theorem ownObjectType_holds {declared : List (String × Shape)} {required : List String}
    (hown : P (properties (some name) (some name) required declared))
    (additional : AdditionalValues) : P (ownObjectType name declared required additional) := by
  rw [ownObjectType_eq]
  refine closedObjectType_holds hP hown ?_ additional
  cases additional with
  | typed values => exact type_holds hP values none hname
  | _ => exact hP.pure _

theorem objectDeclarationKind_holds (nullable : Bool) {declared : List (String × Shape)}
    {required : List String} (hown : P (properties (some name) (some name) required declared))
    (additional : AdditionalValues) :
    P (objectDeclarationKind name nullable declared required additional) := by
  rw [objectDeclarationKind]
  split
  · exact hP.bind hP.settings fun _ =>
      hP.bind (ownObjectType_holds hP hname hown additional) fun _ => hP.pure _
  · exact hP.bind hown fun _ => hP.pure _

theorem memberType_holds {member : Shape}
    (hown : ∀ entries required additional, member.kind = .object entries required additional →
      P (properties (some name) (some name) required entries)) : P (memberType name member) := by
  rw [memberType.eq_def]
  split
  next hkind =>
    split
    · exact type_holds hP member none hname
    · exact hP.bind hP.settings fun _ =>
        hP.bind (ownObjectType_holds hP hname (hown _ _ _ hkind) _) fun _ => hP.pure _
  · exact type_holds hP member none hname

theorem memberTypes_holds {members : List Shape}
    (hown : ∀ member ∈ members, ∀ entries required additional,
      member.kind = .object entries required additional →
        P (properties (some name) (some name) required entries)) :
    P (memberTypes name members) := by
  induction members with
  | nil => exact hP.pure _
  | cons member members ih =>
    obtain ⟨hmember, hmembers⟩ := List.forall_mem_cons.mp hown
    exact hP.bind (memberType_holds hP hname hmember) fun _ =>
      hP.bind (ih hmembers) fun _ => hP.pure _

theorem compositionKind_holds {nullable : Bool} {members : List Shape}
    (hcomposed : P (composedInterface name nullable members))
    (hown : ∀ member ∈ members, ∀ entries required additional,
      member.kind = .object entries required additional →
        P (properties (some name) (some name) required entries)) :
    P (compositionKind name nullable members) := by
  refine hP.bind hcomposed fun kind => ?_
  cases kind with
  | some kind => exact hP.pure _
  | none =>
    exact hP.bind hP.settings fun _ =>
      hP.bind (memberTypes_holds hP hname hown) fun _ => hP.pure _

/-- **What holds of all steps holds of declaring a shape**, if it holds of writing the properties of
the shape itself and of trying to write an interface. -/
theorem declaration_holds {shape : Shape}
    (hown : ∀ required entries, entries ⊆ shape.ownProperties →
      P (properties (some name) (some name) required entries))
    (hcomposed : ∀ members discriminator,
      shape.kind = .composition .allOf members discriminator →
        P (composedInterface name shape.nullable members)) : P (declaration name shape) := by
  have halias : P (do
      let type ← shape.type (some name) none
      pure (DeclarationKind.alias type)) :=
    hP.bind (type_holds hP shape none hname) fun _ => hP.pure _
  refine hP.bind (hP.setSubject name) fun _ => hP.bind ?_ fun _ => hP.pure _
  obtain ⟨kind, nullable, description⟩ := shape
  rw [declarationKind.eq_def]
  simp only
  split
  · exact enumerationKind_holds hP _ _
  · split
    · exact halias
    · exact objectDeclarationKind_holds hP hname _ (hown _ _ (List.Subset.refl _)) _
  · refine compositionKind_holds hP hname (hcomposed _ _ rfl) ?_
    intro member hmember entries required additional hkind
    exact hown required entries fun _ hentry => mem_ownProperties_of_mem hmember hkind hentry
  · exact halias

end Holds

section Lookups

variable {P : ∀ {α : Type}, Session α → Prop} (hP : Session.ClosedWithLookups P) {name : String}
  (hname : HoistHolds P (some name))
include hP hname

theorem properties_holds (owner : Option String) (required : List String)
    (entries : List (String × Shape)) : P (properties (some name) owner required entries) := by
  have howner : P (ownerBinding owner) := by
    cases owner with
    | none => exact hP.pure _
    | some owner => exact hP.bindingOf? owner
  exact hP.bind howner fun _ => propertyTypes_holds hP.toClosed fun entry _ property =>
    type_holds hP.toClosed entry.2 property hname

theorem interfaceBody_holds (extra : Option Shape) : P (interfaceBody name extra) := by
  rw [interfaceBody.eq_def]
  split
  · exact hP.pure _
  · split
    · exact hP.pure _
    · split
      · exact hP.pure _
      · exact hP.bind (properties_holds hP hname _ _ _) fun _ => hP.pure _
    · exact hP.pure _

theorem extendingInterface_holds (pointer : String) (extra : Option Shape) :
    P (extendingInterface name pointer extra) := by
  refine hP.base pointer fun base target => ?_
  split
  · exact hP.bind (hP.reported _) fun _ => hP.pure _
  · refine hP.bind (interfaceBody_holds hP hname extra) fun body => ?_
    cases body with
    | none => exact hP.pure _
    | some body => exact hP.bind hP.settings fun _ => hP.bind (hP.bindingOf? _) fun _ => hP.pure _

theorem composedInterface_holds (nullable : Bool) (members : List Shape) :
    P (composedInterface name nullable members) := by
  rw [composedInterface.eq_def]
  split
  · split
    · exact hP.pure _
    · exact extendingInterface_holds hP hname _ _
  · split
    · exact hP.pure _
    · exact extendingInterface_holds hP hname _ _
  · exact hP.bind (shapeNames_holds hP.toClosed _) fun _ =>
      hP.bind (hP.reported _) fun _ => hP.pure _
  · exact hP.pure _

/-- **What holds of all steps and look-ups holds of declaring any shape.** -/
theorem declaration_holds_of_lookups (shape : Shape) : P (declaration name shape) :=
  declaration_holds hP.toClosed hname
    (fun required entries _ => properties_holds hP hname (some name) required entries)
    fun members _ _ => composedInterface_holds hP hname shape.nullable members

end Lookups

/-! ## What declaring a shape keeps -/

/-- **Declaring a shape keeps a stable relation** that hoisting keeps. -/
theorem declaration_keeps {R : Progress → Progress → Prop} {scope : Scope} (hR : Session.Stable R)
    {name : String} (hname : HoistKeeps R scope (some name)) (shape : Shape) :
    Session.Keeps R scope (declaration name shape) :=
  declaration_holds_of_lookups (hR.closed scope) hname.holds shape

/-- Declaring a shape takes nothing back. -/
theorem declaration_keeps_le (scope : Scope) (name : String) (shape : Shape) :
    Session.Keeps (fun before after => before ≤ after) scope (declaration name shape) :=
  declaration_keeps Progress.stable_le (hoistKeeps_le scope (some name)) shape

/-! ## The ways of declaring a shape -/

/-- What a member of a named composition is written as: the properties of an object are those of the
named shape, and may be bound as such. -/
inductive MemberWrittenAs (scope : Scope) (final : Progress) (name : String) : Shape → Ty → Prop
  | own {entries : List (String × Shape)} {required : List String} {additional : AdditionalValues}
    {nullable : Bool} {description : Option String} {properties : List Property} {type : Ty}
    (hne : entries ≠ [])
    (hproperties : List.Forall₂ (PropertyWrittenAs scope final (scope.bindingOf? name) required)
      entries properties)
    (htype : RecordWrittenAs scope final properties additional type) :
    MemberWrittenAs scope final name ⟨.object entries required additional, nullable, description⟩
      (type.nullableIf nullable scope.settings.nullableType)
  | other {member : Shape} {type : Ty}
    (hkind : ∀ entries required additional, member.kind = .object entries required additional →
      entries = [])
    (htype : WrittenAs scope final member type) :
    MemberWrittenAs scope final name member type

/-- What the other member of a composition with one named base adds to the interface, if it can be
written there. -/
inductive BodyWrittenAs (scope : Scope) (final : Progress) (name : String) :
    Option Shape → InterfaceBody → Prop
  | none : BodyWrittenAs scope final name none ⟨[], none, []⟩
  | unknown {description : Option String} :
    BodyWrittenAs scope final name (some ⟨.unknown, false, description⟩) ⟨[], .none, []⟩
  | object {entries : List (String × Shape)} {required : List String}
    {additional : AdditionalValues} {description : Option String} {properties : List Property}
    (htyped : hasTypedValues additional = false)
    (hproperties : List.Forall₂ (PropertyWrittenAs scope final (scope.bindingOf? name) required)
      entries properties) :
    BodyWrittenAs scope final name (some ⟨.object entries required additional, false, description⟩)
      ⟨properties, openIndex additional, entries.map Prod.fst⟩

/-- Is a shape of the kind declared as an alias of its type, without a route of its own? -/
def isPlain : ShapeKind → Bool
  | .enumeration _ => false
  | .object entries _ _ => entries.isEmpty
  | .composition .allOf _ _ => false
  | _ => true

/-- The ways in which a session that ends in `final` declares a shape of the name `name`. -/
inductive DeclaredAs (scope : Scope) (final : Progress) (name : String) :
    Shape → DeclarationKind → Prop
  | enumeration (values : List EnumValue) (nullable : Bool) (description : Option String) :
    DeclaredAs scope final name ⟨.enumeration values, nullable, description⟩
      (enumerationDeclaration scope.settings values nullable)
  | interface {entries : List (String × Shape)} {required : List String}
    {additional : AdditionalValues} {description : Option String} {properties : List Property}
    (hne : entries ≠ []) (htyped : hasTypedValues additional = false)
    (hproperties : List.Forall₂ (PropertyWrittenAs scope final (scope.bindingOf? name) required)
      entries properties) :
    DeclaredAs scope final name ⟨.object entries required additional, false, description⟩
      (.interface [] properties (openIndex additional))
  | record {entries : List (String × Shape)} {required : List String}
    {additional : AdditionalValues} {nullable : Bool} {description : Option String}
    {properties : List Property} {type : Ty} (hne : entries ≠ [])
    (hroute : (nullable || hasTypedValues additional) = true)
    (hproperties : List.Forall₂ (PropertyWrittenAs scope final (scope.bindingOf? name) required)
      entries properties)
    (htype : RecordWrittenAs scope final properties additional type) :
    DeclaredAs scope final name ⟨.object entries required additional, nullable, description⟩
      (.alias (type.nullableIf nullable scope.settings.nullableType))
  | extension {members : List Shape} {discriminator : Option Discriminator}
    {description : Option String} {pointer base : String} {target : Shape} {extra : Option Shape}
    {body : InterfaceBody} (hpointers : pointers members = [pointer])
    (hextra : (members.filter fun member => !member.isReference) = extra.toList)
    (hbase : Pointer.shapeName scope.root pointer = .ok base)
    (htarget : Pointer.resolve scope.root pointer = .ok target)
    (hextendable : target.isExtendable = true)
    (hbody : BodyWrittenAs scope final name extra body) :
    DeclaredAs scope final name ⟨.composition .allOf members discriminator, false, description⟩
      (.interface [base]
        (withBoundProperty scope.settings.propertyNameStyle (scope.bindingOf? name) body)
        body.index)
  | intersection {members : List Shape} {discriminator : Option Discriminator} {nullable : Bool}
    {description : Option String} {types : List Ty}
    (htypes : List.Forall₂ (MemberWrittenAs scope final name) members types) :
    DeclaredAs scope final name ⟨.composition .allOf members discriminator, nullable, description⟩
      (.alias ((intersect types).nullableIf nullable scope.settings.nullableType))
  | plain {shape : Shape} {type : Ty} (hkind : isPlain shape.kind = true)
    (htype : WrittenAs scope final shape type) :
    DeclaredAs scope final name shape (.alias type)

/-- The two ways for a composition of shapes that hold all at once: an interface if it extends a base,
and an intersection if it does not. -/
inductive AllOfDeclaredAs (scope : Scope) (final : Progress) (name : String) (nullable : Bool)
    (members : List Shape) : DeclarationKind → Prop
  | extension {pointer base : String} {extra : Option Shape} {body : InterfaceBody}
    (hextends : ExtendsBase scope.root nullable members pointer extra)
    (hbase : Pointer.shapeName scope.root pointer = .ok base)
    (hbody : BodyWrittenAs scope final name extra body) :
    AllOfDeclaredAs scope final name nullable members
      (.interface [base]
        (withBoundProperty scope.settings.propertyNameStyle (scope.bindingOf? name) body)
        body.index)
  | intersection {types : List Ty}
    (hextends : ∀ pointer extra, ¬ ExtendsBase scope.root nullable members pointer extra)
    (htypes : List.Forall₂ (MemberWrittenAs scope final name) members types) :
    AllOfDeclaredAs scope final name nullable members
      (.alias ((intersect types).nullableIf nullable scope.settings.nullableType))

section Declared

variable {scope : Scope} {final before after : Progress} {name : String}

theorem enumerationKind_eq_ok {values : List EnumValue} {nullable : Bool} {kind : DeclarationKind}
    (h : enumerationKind values nullable scope before = (.ok kind, after)) :
    kind = enumerationDeclaration scope.settings values nullable ∧
      after.inlineEnums = before.inlineEnums := by
  rw [enumerationKind, Session.bind_eq_ok] at h
  obtain ⟨settings, _, hsettings, h⟩ := h
  obtain ⟨rfl, rfl⟩ := Session.settings_eq_ok.mp hsettings
  rw [enumerationDeclaration]
  split at h
  next hfallback =>
    simp only [Session.bind_eq_ok, Session.report_eq_ok, Session.pure_eq_ok] at h
    obtain ⟨_, _, rfl, rfl, rfl⟩ := h
    rw [if_pos hfallback]
    exact ⟨rfl, rfl⟩
  next hstyle =>
    obtain ⟨rfl, rfl⟩ := Session.pure_eq_ok.mp h
    rw [if_neg hstyle]
    exact ⟨rfl, rfl⟩

theorem writtenAs_of_properties {required : List String} {entries : List (String × Shape)}
    {written : List Property} (hle : after ≤ final)
    (h : properties (some name) (some name) required entries scope before = (.ok written, after)) :
    List.Forall₂ (PropertyWrittenAs scope final (scope.bindingOf? name) required) entries
      written := by
  simp only [properties, ownerBinding, Session.bind_eq_ok, Session.bindingOf?_eq_ok] at h
  obtain ⟨_, _, ⟨rfl, rfl⟩, h⟩ := h
  exact writtenAs_of_propertyTypes hle h

theorem writtenAs_of_ownObjectType {entries : List (String × Shape)} {required : List String}
    {additional : AdditionalValues} {type : Ty} (hle : after ≤ final)
    (h : ownObjectType name entries required additional scope before = (.ok type, after)) :
    ∃ written,
      List.Forall₂ (PropertyWrittenAs scope final (scope.bindingOf? name) required) entries
          written ∧
        RecordWrittenAs scope final written additional type := by
  rw [ownObjectType_eq] at h
  obtain ⟨written, between, hwritten, hbetween, htype⟩ := writtenAs_of_closedObjectType hle h
  exact ⟨written, writtenAs_of_properties hbetween hwritten, htype⟩

theorem bodyWrittenAs_of_interfaceBody {extra : Option Shape} {body : InterfaceBody}
    (hle : after ≤ final)
    (h : interfaceBody name extra scope before = (.ok (some body), after)) :
    BodyWrittenAs scope final name extra body := by
  rw [interfaceBody.eq_def] at h
  split at h
  · obtain ⟨h, -⟩ := Session.pure_eq_ok.mp h
    cases h
    exact BodyWrittenAs.none
  next extra =>
    obtain ⟨kind, nullable, description⟩ := extra
    simp only at h
    split at h
    · obtain ⟨h, -⟩ := Session.pure_eq_ok.mp h
      cases h
      exact BodyWrittenAs.unknown
    · split at h
      · obtain ⟨h, -⟩ := Session.pure_eq_ok.mp h
        cases h
      next htyped =>
        simp only [Session.bind_eq_ok, Session.pure_eq_ok, Option.some.injEq] at h
        obtain ⟨written, _, hwritten, rfl, rfl⟩ := h
        exact BodyWrittenAs.object (eq_false_of_ne_true htyped)
          (writtenAs_of_properties hle hwritten)
    · obtain ⟨h, -⟩ := Session.pure_eq_ok.mp h
      cases h

theorem memberWrittenAs_of_memberType {member : Shape} {type : Ty} (hle : after ≤ final)
    (h : memberType name member scope before = (.ok type, after)) :
    MemberWrittenAs scope final name member type := by
  obtain ⟨kind, nullable, description⟩ := member
  rw [memberType.eq_def] at h
  simp only at h
  split at h
  next entries required additional =>
    split at h
    next hempty =>
      refine MemberWrittenAs.other ?_ ⟨some name, none, before, after, h, hle⟩
      intro others _ _ heq
      obtain ⟨rfl, -⟩ := ShapeKind.object.inj heq
      exact List.isEmpty_iff.mp hempty
    next hne =>
      simp only [Session.bind_eq_ok, Session.pure_eq_ok, Session.settings_eq_ok] at h
      obtain ⟨_, _, ⟨rfl, rfl⟩, type, _, htype, rfl, rfl⟩ := h
      obtain ⟨written, hwritten, htype⟩ := writtenAs_of_ownObjectType hle htype
      exact MemberWrittenAs.own (fun hnil => hne (List.isEmpty_iff.mpr hnil)) hwritten htype
  next hkind =>
    exact MemberWrittenAs.other (fun entries required additional heq => absurd heq (hkind _ _ _))
      ⟨some name, none, before, after, h, hle⟩

theorem memberWrittenAs_of_memberTypes {members : List Shape} {types : List Ty}
    (hle : after ≤ final) (h : memberTypes name members scope before = (.ok types, after)) :
    List.Forall₂ (MemberWrittenAs scope final name) members types := by
  induction members generalizing types before after with
  | nil =>
    obtain ⟨rfl, -⟩ := Session.pure_eq_ok.mp h
    exact List.Forall₂.nil
  | cons member members ih =>
    simp only [memberTypes, Session.bind_eq_ok, Session.pure_eq_ok] at h
    obtain ⟨type, between, htype, others, last, hothers, rfl, rfl⟩ := h
    have hrest : between ≤ last := Session.Keeps.of_eq_ok
      (memberTypes_holds (Progress.stable_le.closed scope).toClosed
        (hoistKeeps_le scope (some name)).holds fun _ _ entries required _ _ =>
          properties_holds (Progress.stable_le.closed scope) (hoistKeeps_le scope (some name)).holds
            (some name) required entries) hothers
    exact List.Forall₂.cons (memberWrittenAs_of_memberType (le_trans hrest hle) htype)
      (ih hle hothers)

theorem allOfDeclaredAs_of_compositionKind {members : List Shape} {nullable : Bool}
    {kind : DeclarationKind} (hle : after ≤ final)
    (h : compositionKind name nullable members scope before = (.ok kind, after)) :
    AllOfDeclaredAs scope final name nullable members kind := by
  rw [compositionKind, Session.bind_eq_ok] at h
  obtain ⟨composed, between, hcomposed, h⟩ := h
  cases composed with
  | some composed =>
    obtain ⟨rfl, rfl⟩ := Session.pure_eq_ok.mp h
    cases composedAs_of_composedInterface hcomposed with
    | interface hextends hbase hbody =>
      exact AllOfDeclaredAs.extension hextends hbase (bodyWrittenAs_of_interfaceBody hle hbody)
  | none =>
    simp only [Session.bind_eq_ok, Session.pure_eq_ok, Session.settings_eq_ok] at h
    obtain ⟨_, _, ⟨rfl, rfl⟩, types, _, htypes, rfl, rfl⟩ := h
    cases composedAs_of_composedInterface hcomposed with
    | other hextends =>
      exact AllOfDeclaredAs.intersection hextends (memberWrittenAs_of_memberTypes hle htypes)

/-- A composition of shapes that hold all at once is declared in one of the two ways. -/
theorem allOfDeclaredAs_of_declaration {shape : Shape} {members : List Shape}
    {discriminator : Option Discriminator} {declared : Declaration} (hle : after ≤ final)
    (hkind : shape.kind = .composition .allOf members discriminator)
    (h : declaration name shape scope before = (.ok declared, after)) :
    AllOfDeclaredAs scope final name shape.nullable members declared.kind := by
  simp only [declaration, Session.bind_eq_ok, Session.pure_eq_ok] at h
  obtain ⟨_, _, _, kind, _, h, rfl, rfl⟩ := h
  obtain ⟨core, nullable, description⟩ := shape
  obtain rfl : core = .composition .allOf members discriminator := hkind
  exact allOfDeclaredAs_of_compositionKind hle h

theorem declaredAs_of_objectDeclarationKind {entries : List (String × Shape)}
    {required : List String} {additional : AdditionalValues} {nullable : Bool}
    {description : Option String} {kind : DeclarationKind} (hle : after ≤ final)
    (hne : entries ≠ [])
    (h : objectDeclarationKind name nullable entries required additional scope before =
      (.ok kind, after)) :
    DeclaredAs scope final name ⟨.object entries required additional, nullable, description⟩
      kind := by
  rw [objectDeclarationKind] at h
  split at h
  next hroute =>
    simp only [Session.bind_eq_ok, Session.pure_eq_ok, Session.settings_eq_ok] at h
    obtain ⟨_, _, ⟨rfl, rfl⟩, type, _, htype, rfl, rfl⟩ := h
    obtain ⟨written, hwritten, htype⟩ := writtenAs_of_ownObjectType hle htype
    exact DeclaredAs.record hne hroute hwritten htype
  next hroute =>
    simp only [Session.bind_eq_ok, Session.pure_eq_ok] at h
    obtain ⟨written, _, hwritten, rfl, rfl⟩ := h
    obtain ⟨rfl, htyped⟩ := Bool.or_eq_false_iff.mp (eq_false_of_ne_true hroute)
    exact DeclaredAs.interface hne htyped (writtenAs_of_properties hle hwritten)

theorem declaredAs_of_declarationKind {shape : Shape} {kind : DeclarationKind}
    (hle : after ≤ final)
    (h : declarationKind name shape scope before = (.ok kind, after)) :
    DeclaredAs scope final name shape kind := by
  have hplain : isPlain shape.kind = true →
      (do let type ← shape.type (some name) none; pure (DeclarationKind.alias type) :
        Session DeclarationKind) scope before = (.ok kind, after) →
      DeclaredAs scope final name shape kind := by
    intro hkind h
    simp only [Session.bind_eq_ok, Session.pure_eq_ok] at h
    obtain ⟨type, _, htype, rfl, rfl⟩ := h
    exact DeclaredAs.plain hkind ⟨some name, none, before, _, htype, hle⟩
  obtain ⟨core, nullable, description⟩ := shape
  rw [declarationKind.eq_def] at h
  simp only at h
  split at h
  · rw [(enumerationKind_eq_ok h).1]
    exact DeclaredAs.enumeration _ nullable description
  · split at h
    next hempty => exact hplain hempty h
    next hne =>
      exact declaredAs_of_objectDeclarationKind hle
        (fun hnil => hne (List.isEmpty_iff.mpr hnil)) h
  · cases allOfDeclaredAs_of_compositionKind hle h with
    | extension hextends hbase hbody =>
      obtain ⟨rfl, hpointers, hothers, ⟨target, htarget, hextendable⟩, -⟩ := hextends
      exact DeclaredAs.extension hpointers hothers hbase htarget hextendable hbody
    | intersection _ htypes => exact DeclaredAs.intersection htypes
  next henumeration hobject hallOf =>
    refine hplain ?_ h
    cases core with
    | enumeration values => exact (henumeration values rfl).elim
    | object entries required additional => exact (hobject _ _ _ rfl).elim
    | composition kind members discriminator =>
      cases kind with
      | allOf => exact (hallOf _ _ rfl).elim
      | oneOf => rfl
      | anyOf => rfl
    | _ => rfl

/-- **How a shape was declared**: under its name, with its description, in one of the ways. -/
theorem declaredAs_of_declaration {shape : Shape} {declared : Declaration} (hle : after ≤ final)
    (h : declaration name shape scope before = (.ok declared, after)) :
    declared.name = name ∧ declared.description = shape.description ∧
      DeclaredAs scope final name shape declared.kind := by
  simp only [declaration, Session.bind_eq_ok, Session.pure_eq_ok] at h
  obtain ⟨_, _, _, kind, _, hkind, rfl, rfl⟩ := h
  exact ⟨rfl, rfl, declaredAs_of_declarationKind hle hkind⟩

end Declared

end Shape

/-! ## Hoisted enumerations -/

/-- The declaration of a hoisted enumeration. -/
def InlineEnum.declared (settings : Settings) (inline : InlineEnum) : Declaration :=
  { name := inline.name
    kind := Shape.enumerationDeclaration settings inline.values false }

/-- Declaring a hoisted enumeration hoists nothing. -/
theorem InlineEnum.declaration_eq_ok {scope : Scope} {before after : Progress}
    {inline : InlineEnum} {declared : Declaration}
    (h : inline.declaration scope before = (.ok declared, after)) :
    declared = inline.declared scope.settings ∧ after.inlineEnums = before.inlineEnums := by
  simp only [InlineEnum.declaration, Session.bind_eq_ok, Session.pure_eq_ok,
    Session.setSubject_eq_ok] at h
  obtain ⟨_, _, rfl, kind, _, hkind, rfl, rfl⟩ := h
  obtain ⟨rfl, hinline⟩ := Shape.enumerationKind_eq_ok hkind
  exact ⟨rfl, hinline⟩

theorem InlineEnum.declaration_holds {P : ∀ {α : Type}, Session α → Prop}
    (hP : Session.Closed P) (inline : InlineEnum) : P inline.declaration :=
  hP.bind (hP.setSubject _) fun _ =>
    hP.bind (Shape.enumerationKind_holds hP _ _) fun _ => hP.pure _

end ApiScribe
