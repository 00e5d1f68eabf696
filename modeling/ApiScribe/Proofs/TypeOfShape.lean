import ApiScribe.Proofs.Hoisting
import ApiScribe.Shape.Type
import Mathlib.Data.List.Forall2

/-!
# What a shape is written as

Everything that is said about `Shape.type` goes through this module.

* `Shape.induct` is the induction over shapes: one case for each kind, with the hypothesis for every
  shape inside.
* `type_mk` separates what depends on the kind of a shape, `coreType`, from the bottom that is added
  to a nullable one.
* `type_holds` lifts a property from the steps that write types to whole types, and `type_keeps` a
  stable relation.  The only names that are asked for are those of places in the declaration around
  the shape, so nothing need hold of hoisting under other names.
* `WrittenAs` says that some run of the session that ends in `final` writes a shape as a type, and
  `WrittenAs.cases` what the type then is, kind by kind.  Later proofs know no more than that.
-/

namespace ApiScribe

open TypeScript

/-! ## Lists that correspond -/

/-- What stands in the second of two lists that correspond has a counterpart in the first. -/
theorem exists_of_forall₂_right {α β : Type} {R : α → β → Prop} {xs : List α} {ys : List β}
    (h : List.Forall₂ R xs ys) {y : β} (hmem : y ∈ ys) : ∃ x ∈ xs, R x y := by
  induction h with
  | nil => cases hmem
  | @cons x _ xs _ hhead _ ih =>
    rcases List.mem_cons.mp hmem with rfl | hmem
    · exact ⟨x, List.mem_cons_self, hhead⟩
    · obtain ⟨other, hother, hrel⟩ := ih hmem
      exact ⟨other, List.mem_cons_of_mem _ hother, hrel⟩

/-- What stands in the first of two lists that correspond has a counterpart in the second. -/
theorem exists_of_forall₂_left {α β : Type} {R : α → β → Prop} {xs : List α} {ys : List β}
    (h : List.Forall₂ R xs ys) {x : α} (hmem : x ∈ xs) : ∃ y ∈ ys, R x y :=
  exists_of_forall₂_right h.flip hmem

/-! ## Primitive types -/

/-- A primitive type is recognized. -/
theorem TypeScript.Ty.eq_of_isPrimitive {type : Ty} {primitive : Primitive}
    (h : type.isPrimitive primitive = true) : type = .primitive primitive := by
  cases type with
  | primitive other => rw [beq_iff_eq.mp h]
  | _ => cases h

/-! ## Induction over shapes -/

/-- A property of shapes holds for all of them if it holds for a shape of each kind whenever it
holds for the shapes inside. -/
theorem Shape.induct {P : Shape → Prop}
    (primitive : ∀ type format nullable description,
      P ⟨.primitive type format, nullable, description⟩)
    (array : ∀ items nullable description, P items → P ⟨.array items, nullable, description⟩)
    (object : ∀ properties required additional nullable description,
      (∀ entry ∈ properties, P entry.2) → (∀ values, additional = .typed values → P values) →
        P ⟨.object properties required additional, nullable, description⟩)
    (reference : ∀ pointer nullable description, P ⟨.reference pointer, nullable, description⟩)
    (enumeration : ∀ values nullable description, P ⟨.enumeration values, nullable, description⟩)
    (composition : ∀ kind members discriminator nullable description,
      (∀ member ∈ members, P member) →
        P ⟨.composition kind members discriminator, nullable, description⟩)
    (constant : ∀ value nullable description, P ⟨.constant value, nullable, description⟩)
    (unknown : ∀ nullable description, P ⟨.unknown, nullable, description⟩)
    (unclassified : ∀ typeName nullable description,
      P ⟨.unclassified typeName, nullable, description⟩)
    (shape : Shape) : P shape := by
  refine Shape.rec
    (motive_1 := fun additional => ∀ values, additional = .typed values → P values)
    (motive_2 := fun kind => ∀ nullable description, P ⟨kind, nullable, description⟩)
    (motive_3 := P) (motive_4 := fun properties => ∀ entry ∈ properties, P entry.2)
    (motive_5 := fun members => ∀ member ∈ members, P member)
    (motive_6 := fun entry => P entry.2)
    ?_ ?_ ?_ ?_ ?_ ?_ ?_ ?_ ?_ ?_ ?_ ?_ ?_ ?_ ?_ ?_ ?_ ?_ ?_ shape
  -- values of other properties
  · intro values h
    cases h
  · intro values h
    cases h
  · intro values h
    cases h
  · intro values ih other h
    cases h
    exact ih
  -- kinds
  · exact primitive
  · exact fun items ih nullable description => array items nullable description ih
  · exact fun properties required additional hproperties hadditional nullable description =>
      object properties required additional nullable description hproperties hadditional
  · exact reference
  · exact enumeration
  · exact fun kind members discriminator ih nullable description =>
      composition kind members discriminator nullable description ih
  · exact constant
  · exact unknown
  · exact unclassified
  · exact fun kind nullable description ih => ih nullable description
  -- lists
  · exact fun entry h => absurd h List.not_mem_nil
  · exact fun head tail hhead htail => List.forall_mem_cons.mpr ⟨hhead, htail⟩
  · exact fun member h => absurd h List.not_mem_nil
  · exact fun head tail hhead htail => List.forall_mem_cons.mpr ⟨hhead, htail⟩
  · exact fun name shape ih => ih

namespace Shape

/-! ## The part that depends on the kind -/

/-- The type of the values that other properties have, where it matters. -/
def typedValues (parent : Option String) : AdditionalValues → Session Ty
  | .typed values => type parent none values
  | _ => pure (.primitive .unknown)

/-- The type of a shape that is not nullable. -/
def coreType (parent property : Option String) : ShapeKind → Session Ty
  | .primitive primitive format => do
    let settings ← Session.settings
    pure (primitive.type settings format)
  | .array items => do
    let item ← type parent property items
    pure (.array item)
  | .object properties required additional =>
    let inner := innerParent parent property
    if properties.isEmpty then openObjectType additional (typedValues inner additional)
    else closedObjectType (propertyTypes inner none required properties) additional
      (typedValues inner additional)
  | .reference pointer => do
    let name ← Session.onRoot fun root => Pointer.shapeName root pointer
    pure (.named name)
  | .enumeration values => enumerationType parent property values
  | .composition kind members _ => do
    let types ← types parent property members
    pure (Ty.combine (if kind = .allOf then .intersection else .union) types)
  | .constant value => pure (.literal value.literal)
  | .unknown => pure (.primitive .unknown)
  | .unclassified typeName => do
    Session.report (.unclassifiedSchema typeName)
    pure (.primitive .unknown)

theorem type_mk (parent property : Option String) (kind : ShapeKind) (nullable : Bool)
    (description : Option String) :
    type parent property ⟨kind, nullable, description⟩ = (do
      let core ← coreType parent property kind
      let settings ← Session.settings
      pure (core.nullableIf nullable settings.nullableType)) := by
  rw [type, ← Session.settings_bind_comm]
  cases kind with
  | primitive primitive format => rfl
  | object properties required additional =>
    cases additional <;> by_cases h : properties.isEmpty <;> simp [coreType, h, typedValues]
  | composition kind members discriminator => cases kind <;> simp [coreType]
  | _ => simp [coreType]

/-! ## What holds of writing a type -/

section Holds

variable {P : ∀ {α : Type}, Session α → Prop}

/-- The names of the places in a declaration: of its properties, and of the places inside them. -/
inductive IsPlaceIn (parent : String) : String → Prop
  | property (property : String) : IsPlaceIn parent (placeName parent property)
  | inner {place : String} (h : IsPlaceIn parent place) (property : String) :
    IsPlaceIn parent (placeName place property)

/-- A place inside a property is a place in the declaration of the property. -/
theorem IsPlaceIn.of_property {parent property place : String}
    (h : IsPlaceIn (placeName parent property) place) : IsPlaceIn parent place := by
  induction h with
  | property other => exact .inner (.property property) other
  | inner _ other ih => exact ih.inner other

/-- The property holds of hoisting under the name of a place in the declaration around.  Where there
is no declaration around, nothing is hoisted. -/
def HoistHolds (P : ∀ {α : Type}, Session α → Prop) (parent : Option String) : Prop :=
  ∀ around, parent = some around → ∀ place, IsPlaceIn around place →
    ∀ values, P (Session.hoist place values)

theorem HoistHolds.none : HoistHolds P none :=
  fun _ h => nomatch h

theorem HoistHolds.inner {parent : Option String} (h : HoistHolds P parent)
    (property : Option String) : HoistHolds P (innerParent parent property) := by
  cases parent with
  | none => exact HoistHolds.none
  | some parent =>
    cases property with
    | none => exact h
    | some property =>
      rintro around ⟨⟩ place hplace
      exact h parent rfl place hplace.of_property

variable (hP : Session.Closed P)
include hP

theorem enumerationType_holds {parent : Option String} (h : HoistHolds P parent)
    (property : Option String) (values : List EnumValue) :
    P (enumerationType parent property values) := by
  cases parent with
  | none => exact hP.pure _
  | some parent =>
    cases property with
    | none => exact hP.pure _
    | some property =>
      have hplace : IsPlaceIn parent (placeName parent property) := .property property
      exact hP.bind (h parent rfl _ hplace values) fun _ => hP.pure _

theorem openObjectType_holds {values : Session Ty} (hvalues : P values)
    (additional : AdditionalValues) : P (openObjectType additional values) := by
  cases additional with
  | typed _ => exact hP.bind hvalues fun _ => hP.pure _
  | _ => exact hP.pure _

theorem closedObjectType_holds {properties : Session (List Property)} {values : Session Ty}
    (hproperties : P properties) (hvalues : P values) (additional : AdditionalValues) :
    P (closedObjectType properties additional values) := by
  refine hP.bind hproperties fun _ => ?_
  cases additional with
  | typed _ => exact hP.bind (hP.reported _) fun _ => hP.bind hvalues fun _ => hP.pure _
  | _ => exact hP.pure _

theorem types_holds {parent property : Option String} {shapes : List Shape}
    (h : ∀ shape ∈ shapes, P (type parent property shape)) :
    P (types parent property shapes) := by
  induction shapes with
  | nil => exact hP.pure _
  | cons shape shapes ih =>
    obtain ⟨hshape, hshapes⟩ := List.forall_mem_cons.mp h
    exact hP.bind hshape fun _ => hP.bind (ih hshapes) fun _ => hP.pure _

theorem propertyTypes_holds {parent : Option String} {binding : Option Binding}
    {required : List String} {properties : List (String × Shape)}
    (h : ∀ entry ∈ properties, ∀ property, P (type parent property entry.2)) :
    P (propertyTypes parent binding required properties) := by
  induction properties with
  | nil => exact hP.pure _
  | cons entry properties ih =>
    obtain ⟨hentry, hproperties⟩ := List.forall_mem_cons.mp h
    rw [propertyTypes]
    refine hP.bind hP.settings fun settings => ?_
    have hrest : ∀ property : Property, P (do
        let others ← propertyTypes parent binding required properties
        pure (property :: others)) :=
      fun _ => hP.bind (ih hproperties) fun _ => hP.pure _
    cases binding.filter fun binding => decide (binding.property = entry.1) with
    | some binding => exact hP.bind (hP.pure _) fun _ => hrest _
    | none =>
      exact hP.bind (hentry (some entry.1)) fun _ => hP.bind (hP.pure _) fun _ => hrest _

/-- **What holds of all steps holds of writing a shape.** -/
theorem type_holds (shape : Shape) : ∀ {parent : Option String} (property : Option String),
    HoistHolds P parent → P (type parent property shape) := by
  -- what is left after the kind is the reading of the settings
  have hcore : ∀ {parent property kind nullable description},
      P (coreType parent property kind) → P (type parent property ⟨kind, nullable, description⟩) := by
    intro parent property kind nullable description h
    rw [type_mk]
    exact hP.bind h fun _ => hP.bind hP.settings fun _ => hP.pure _
  induction shape using Shape.induct with
  | primitive => exact fun _ _ => hcore (hP.bind hP.settings fun _ => hP.pure _)
  | array items _ _ ih => exact fun property h => hcore (hP.bind (ih property h) fun _ => hP.pure _)
  | object properties required additional _ _ ihproperties ihadditional =>
    intro parent property h
    have hvalues : P (typedValues (innerParent parent property) additional) := by
      cases additional with
      | typed values => exact ihadditional values rfl none (h.inner property)
      | _ => exact hP.pure _
    refine hcore ?_
    rw [coreType]
    split
    · exact openObjectType_holds hP hvalues additional
    · have hproperties : P (propertyTypes (innerParent parent property) none required properties) :=
        propertyTypes_holds hP fun entry hentry name =>
          ihproperties entry hentry name (h.inner property)
      exact closedObjectType_holds hP hproperties hvalues additional
  | reference => exact fun _ _ => hcore (hP.bind (hP.shapeName _) fun _ => hP.pure _)
  | enumeration values => exact fun property h => hcore (enumerationType_holds hP h property values)
  | composition kind members _ _ _ ih =>
    intro parent property h
    exact hcore (hP.bind (types_holds hP fun member hmember => ih member hmember property h)
      fun _ => hP.pure _)
  | constant => exact fun _ _ => hcore (hP.pure _)
  | unknown => exact fun _ _ => hcore (hP.pure _)
  | unclassified => exact fun _ _ => hcore (hP.bind (hP.reported _) fun _ => hP.pure _)

end Holds

/-! ## What writing a type keeps -/

/-- Hoisting under the name of a place in the declaration around keeps the relation. -/
def HoistKeeps (R : Progress → Progress → Prop) (scope : Scope) (parent : Option String) : Prop :=
  ∀ around, parent = some around → ∀ place, IsPlaceIn around place →
    ∀ progress values, R progress (Progress.hoist progress scope.shapeNames place values).2

section HoistKeeps

variable {R : Progress → Progress → Prop} {scope : Scope} {parent : Option String}

theorem HoistKeeps.none : HoistKeeps R scope none :=
  fun _ h => nomatch h

/-- What hoisting keeps under all names it keeps under those of places. -/
theorem HoistKeeps.of_forall (h : ∀ progress requested values,
    R progress (Progress.hoist progress scope.shapeNames requested values).2) :
    HoistKeeps R scope parent :=
  fun _ _ place _ progress values => h progress place values

theorem HoistKeeps.holds (h : HoistKeeps R scope parent) :
    HoistHolds (fun step => Session.Keeps R scope step) parent :=
  fun around haround place hplace values before =>
    h around haround place hplace before values

end HoistKeeps

theorem hoistKeeps_le (scope : Scope) (parent : Option String) :
    HoistKeeps (fun before after => before ≤ after) scope parent :=
  HoistKeeps.of_forall fun progress requested values =>
    progress.le_hoist scope.shapeNames requested values

/-- **Writing a shape keeps a stable relation** that hoisting keeps. -/
theorem type_keeps {R : Progress → Progress → Prop} {scope : Scope} (hR : Session.Stable R)
    (shape : Shape) {parent : Option String} (property : Option String)
    (h : HoistKeeps R scope parent) : Session.Keeps R scope (type parent property shape) :=
  type_holds (hR.closed scope).toClosed shape property h.holds

/-- Writing a shape takes nothing back. -/
theorem type_keeps_le (scope : Scope) (shape : Shape) (parent property : Option String) :
    Session.Keeps (fun before after => before ≤ after) scope (type parent property shape) :=
  type_keeps Progress.stable_le shape property (hoistKeeps_le scope parent)

/-! ## Types that were written -/

/-- Some run of a session that ends in `final` writes the shape as the type. -/
def WrittenAs (scope : Scope) (final : Progress) (shape : Shape) (type : Ty) : Prop :=
  ∃ parent property before after,
    shape.type parent property scope before = (.ok type, after) ∧ after ≤ final

variable {scope : Scope} {final before after : Progress}

/-- A property of an object is written with the literal that it is bound to, or else with its own
type. -/
inductive PropertyWrittenAs (scope : Scope) (final : Progress) (binding : Option Binding)
    (required : List String) (entry : String × Shape) : Property → Prop
  | bound {bound : Binding} (hbinding : binding = some bound) (hname : bound.property = entry.1) :
    PropertyWrittenAs scope final binding required entry
      (boundProperty scope.settings.propertyNameStyle bound entry.2.description)
  | free {type : Ty} (hfree : ∀ bound, binding = some bound → bound.property ≠ entry.1)
    (htype : WrittenAs scope final entry.2 type) :
    PropertyWrittenAs scope final binding required entry
      { name := scope.settings.propertyNameStyle.spell entry.1, type
        optional := !required.contains entry.1, description := entry.2.description }

/-- What an object without declared properties is written as. -/
inductive DictionaryWrittenAs (scope : Scope) (final : Progress) : AdditionalValues → Ty → Prop
  | unspecified :
    DictionaryWrittenAs scope final .unspecified (Ty.dictionary (.primitive .unknown))
  | unrestricted :
    DictionaryWrittenAs scope final .unrestricted (Ty.dictionary (.primitive .unknown))
  | forbidden : DictionaryWrittenAs scope final .forbidden (Ty.dictionary (.primitive .never))
  | typed {values : Shape} {type : Ty} (htype : WrittenAs scope final values type) :
    DictionaryWrittenAs scope final (.typed values) (Ty.dictionary type)

/-- What an object with declared properties is written as, once these are written. -/
inductive RecordWrittenAs (scope : Scope) (final : Progress) (properties : List Property) :
    AdditionalValues → Ty → Prop
  | unspecified : RecordWrittenAs scope final properties .unspecified (.object properties none)
  | forbidden : RecordWrittenAs scope final properties .forbidden (.object properties none)
  | unrestricted : RecordWrittenAs scope final properties .unrestricted
      (.object properties (some (.primitive .unknown)))
  | typed {values : Shape} {type : Ty} {subject : String}
    (hreport : ⟨subject, .typedAdditionalProperties⟩ ∈ final.diagnostics)
    (htype : WrittenAs scope final values type) :
    RecordWrittenAs scope final properties (.typed values)
      (.intersection [.object properties none, Ty.dictionary type])

/-- What a shape of a kind is written as, if it is not nullable. -/
inductive CoreWrittenAs (scope : Scope) (final : Progress) : ShapeKind → Ty → Prop
  | primitive (primitive : PrimitiveType) (format : Option String) :
    CoreWrittenAs scope final (.primitive primitive format) (primitive.type scope.settings format)
  | array {items : Shape} {item : Ty} (hitem : WrittenAs scope final items item) :
    CoreWrittenAs scope final (.array items) (.array item)
  | dictionary {required : List String} {additional : AdditionalValues} {type : Ty}
    (htype : DictionaryWrittenAs scope final additional type) :
    CoreWrittenAs scope final (.object [] required additional) type
  | object {entries : List (String × Shape)} {required : List String}
    {additional : AdditionalValues} {properties : List Property} {type : Ty} (hne : entries ≠ [])
    (hproperties : List.Forall₂ (PropertyWrittenAs scope final none required) entries properties)
    (htype : RecordWrittenAs scope final properties additional type) :
    CoreWrittenAs scope final (.object entries required additional) type
  | reference {pointer name : String} (hname : Pointer.shapeName scope.root pointer = .ok name) :
    CoreWrittenAs scope final (.reference pointer) (.named name)
  | hoisted {values : List EnumValue} {inline : InlineEnum} (hmem : inline ∈ final.inlineEnums)
    (hvalues : inline.values = values ∨ EnumValue.sameList inline.values values = true) :
    CoreWrittenAs scope final (.enumeration values) (.named inline.name)
  | literals (values : List EnumValue) :
    CoreWrittenAs scope final (.enumeration values)
      (Ty.combine .union (values.map fun value => .literal value.literal))
  | composition {kind : CompositionKind} {members : List Shape}
    {discriminator : Option Discriminator} {types : List Ty}
    (htypes : List.Forall₂ (WrittenAs scope final) members types) :
    CoreWrittenAs scope final (.composition kind members discriminator)
      (Ty.combine (if kind = .allOf then .intersection else .union) types)
  | constant (value : EnumValue) :
    CoreWrittenAs scope final (.constant value) (.literal value.literal)
  | unknown : CoreWrittenAs scope final .unknown (.primitive .unknown)
  | unclassified (typeName : String) :
    CoreWrittenAs scope final (.unclassified typeName) (.primitive .unknown)

theorem writtenAs_of_types {parent property : Option String} {shapes : List Shape}
    {types : List Ty} (hle : after ≤ final)
    (h : Shape.types parent property shapes scope before = (.ok types, after)) :
    List.Forall₂ (WrittenAs scope final) shapes types := by
  induction shapes generalizing types before after with
  | nil =>
    obtain ⟨rfl, -⟩ := Session.pure_eq_ok.mp h
    exact List.Forall₂.nil
  | cons shape shapes ih =>
    rw [Shape.types] at h
    simp only [Session.bind_eq_ok, Session.pure_eq_ok] at h
    obtain ⟨type, between, htype, others, last, hothers, rfl, rfl⟩ := h
    have hrest := Session.Keeps.of_eq_ok (types_holds (Progress.stable_le.closed scope).toClosed
      fun shape _ => type_keeps_le scope shape parent property) hothers
    exact List.Forall₂.cons ⟨parent, property, before, between, htype, le_trans hrest hle⟩
      (ih hle hothers)

theorem writtenAs_of_propertyTypes {parent : Option String} {binding : Option Binding}
    {required : List String} {entries : List (String × Shape)} {properties : List Property}
    (hle : after ≤ final)
    (h : propertyTypes parent binding required entries scope before = (.ok properties, after)) :
    List.Forall₂ (PropertyWrittenAs scope final binding required) entries properties := by
  induction entries generalizing properties before after with
  | nil =>
    obtain ⟨rfl, -⟩ := Session.pure_eq_ok.mp h
    exact List.Forall₂.nil
  | cons entry entries ih =>
    obtain ⟨name, shape⟩ := entry
    have hkeeps : Session.Keeps (fun before after => before ≤ after) scope
        (propertyTypes parent binding required entries) :=
      propertyTypes_holds (Progress.stable_le.closed scope).toClosed
        fun entry _ property => type_keeps_le scope entry.2 parent property
    rw [propertyTypes] at h
    cases hbinding : binding.filter fun binding => decide (binding.property = name) with
    | some bound =>
      rw [hbinding] at h
      simp only [Session.bind_eq_ok, Session.pure_eq_ok, Session.settings_eq_ok] at h
      obtain ⟨settings, _, ⟨rfl, rfl⟩, property, _, ⟨rfl, rfl⟩, others, last, hothers, rfl,
        rfl⟩ := h
      obtain ⟨hsome, hname⟩ := Option.filter_eq_some_iff.mp hbinding
      exact List.Forall₂.cons (PropertyWrittenAs.bound hsome (of_decide_eq_true hname))
        (ih hle hothers)
    | none =>
      rw [hbinding] at h
      simp only [Session.bind_eq_ok, Session.pure_eq_ok, Session.settings_eq_ok] at h
      obtain ⟨settings, _, ⟨rfl, rfl⟩, type, between, htype, property, _, ⟨rfl, rfl⟩, others, last,
        hothers, rfl, rfl⟩ := h
      have hfree : ∀ bound, binding = some bound → bound.property ≠ name := by
        intro bound hsome hname
        rw [hsome, Option.filter_some, if_pos (decide_eq_true hname)] at hbinding
        cases hbinding
      have hbetween : between ≤ final := le_trans (hkeeps.of_eq_ok hothers) hle
      have hwritten : WrittenAs scope final shape type :=
        ⟨parent, some name, before, between, htype, hbetween⟩
      exact List.Forall₂.cons (PropertyWrittenAs.free hfree hwritten) (ih hle hothers)

theorem writtenAs_of_typedValues {parent : Option String} {values : Shape} {type : Ty}
    (hle : after ≤ final)
    (h : typedValues parent (.typed values) scope before = (.ok type, after)) :
    WrittenAs scope final values type :=
  ⟨parent, none, before, after, h, hle⟩

theorem writtenAs_of_openObjectType {parent : Option String} {additional : AdditionalValues}
    {type : Ty} (hle : after ≤ final)
    (h : openObjectType additional (typedValues parent additional) scope before =
      (.ok type, after)) :
    DictionaryWrittenAs scope final additional type := by
  cases additional with
  | unspecified =>
    obtain ⟨rfl, -⟩ := Session.pure_eq_ok.mp h
    exact DictionaryWrittenAs.unspecified
  | forbidden =>
    obtain ⟨rfl, -⟩ := Session.pure_eq_ok.mp h
    exact DictionaryWrittenAs.forbidden
  | unrestricted =>
    obtain ⟨rfl, -⟩ := Session.pure_eq_ok.mp h
    exact DictionaryWrittenAs.unrestricted
  | typed values =>
    simp only [openObjectType, Session.bind_eq_ok, Session.pure_eq_ok] at h
    obtain ⟨value, _, hvalue, rfl, rfl⟩ := h
    exact DictionaryWrittenAs.typed (writtenAs_of_typedValues hle hvalue)

/-- An object with declared properties: the properties are written first, and what other properties
may be second. -/
theorem writtenAs_of_closedObjectType {parent : Option String}
    {properties : Session (List Property)} {additional : AdditionalValues} {type : Ty}
    (hle : after ≤ final)
    (h : closedObjectType properties additional (typedValues parent additional) scope before =
      (.ok type, after)) :
    ∃ written between, properties scope before = (.ok written, between) ∧ between ≤ final ∧
      RecordWrittenAs scope final written additional type := by
  rw [closedObjectType, Session.bind_eq_ok] at h
  obtain ⟨written, between, hwritten, h⟩ := h
  refine ⟨written, between, hwritten, ?_⟩
  cases additional with
  | unspecified =>
    obtain ⟨rfl, rfl⟩ := Session.pure_eq_ok.mp h
    exact ⟨hle, RecordWrittenAs.unspecified⟩
  | forbidden =>
    obtain ⟨rfl, rfl⟩ := Session.pure_eq_ok.mp h
    exact ⟨hle, RecordWrittenAs.forbidden⟩
  | unrestricted =>
    obtain ⟨rfl, rfl⟩ := Session.pure_eq_ok.mp h
    exact ⟨hle, RecordWrittenAs.unrestricted⟩
  | typed values =>
    simp only [Session.bind_eq_ok, Session.pure_eq_ok, Session.report_eq_ok] at h
    obtain ⟨_, reported, rfl, value, _, hvalue, rfl, rfl⟩ := h
    have hreported := le_trans ((type_keeps_le scope values parent none).of_eq_ok hvalue) hle
    exact ⟨le_trans (between.le_report _) hreported,
      RecordWrittenAs.typed (Progress.mem_diagnostics hreported (between.mem_report _))
        (writtenAs_of_typedValues hle hvalue)⟩

theorem writtenAs_of_coreType {parent property : Option String} {kind : ShapeKind} {core : Ty}
    (hle : after ≤ final)
    (h : coreType parent property kind scope before = (.ok core, after)) :
    CoreWrittenAs scope final kind core := by
  cases kind with
  | primitive primitive format =>
    simp only [coreType, Session.bind_eq_ok, Session.pure_eq_ok, Session.settings_eq_ok] at h
    obtain ⟨settings, _, ⟨rfl, rfl⟩, rfl, rfl⟩ := h
    exact CoreWrittenAs.primitive primitive format
  | array items =>
    simp only [coreType, Session.bind_eq_ok, Session.pure_eq_ok] at h
    obtain ⟨item, _, hitem, rfl, rfl⟩ := h
    exact CoreWrittenAs.array ⟨parent, property, before, _, hitem, hle⟩
  | object entries required additional =>
    cases entries with
    | nil => exact CoreWrittenAs.dictionary (writtenAs_of_openObjectType hle h)
    | cons entry entries =>
      obtain ⟨written, between, hwritten, hbetween, hrecord⟩ := writtenAs_of_closedObjectType hle h
      exact CoreWrittenAs.object (List.cons_ne_nil entry entries)
        (writtenAs_of_propertyTypes hbetween hwritten) hrecord
  | reference pointer =>
    simp only [coreType, Session.bind_eq_ok, Session.pure_eq_ok, Session.onRoot_eq_ok] at h
    obtain ⟨name, _, ⟨hname, rfl⟩, rfl, rfl⟩ := h
    exact CoreWrittenAs.reference hname
  | enumeration values =>
    have hliterals : ∀ {parent property : Option String},
        enumerationType parent property values =
          pure (Ty.combine .union (values.map fun value => .literal value.literal)) →
        coreType parent property (.enumeration values) scope before = (.ok core, after) →
          CoreWrittenAs scope final (.enumeration values) core := by
      intro parent property hpure h
      rw [coreType, hpure] at h
      obtain ⟨rfl, -⟩ := Session.pure_eq_ok.mp h
      exact CoreWrittenAs.literals values
    cases parent with
    | none => exact hliterals rfl h
    | some parent =>
      cases property with
      | none => exact hliterals rfl h
      | some property =>
        simp only [coreType, enumerationType, Session.bind_eq_ok, Session.pure_eq_ok,
          Session.hoist_eq_ok] at h
        obtain ⟨name, _, hname, rfl, rfl⟩ := h
        obtain ⟨inline, hmem, rfl, hvalues⟩ := Progress.exists_mem_hoist hname
        exact CoreWrittenAs.hoisted (Progress.mem_inlineEnums hle hmem) hvalues
  | composition kind members discriminator =>
    simp only [coreType, Session.bind_eq_ok, Session.pure_eq_ok] at h
    obtain ⟨types, _, htypes, rfl, rfl⟩ := h
    exact CoreWrittenAs.composition (writtenAs_of_types hle htypes)
  | constant value =>
    obtain ⟨rfl, -⟩ := Session.pure_eq_ok.mp h
    exact CoreWrittenAs.constant value
  | unknown =>
    obtain ⟨rfl, -⟩ := Session.pure_eq_ok.mp h
    exact CoreWrittenAs.unknown
  | unclassified typeName =>
    simp only [coreType, Session.bind_eq_ok, Session.pure_eq_ok] at h
    obtain ⟨_, _, _, rfl, rfl⟩ := h
    exact CoreWrittenAs.unclassified typeName

/-- **What a shape was written as**: what its kind asks for, with the bottom if it is nullable. -/
theorem WrittenAs.cases {shape : Shape} {type : Ty} (h : WrittenAs scope final shape type) :
    ∃ core, CoreWrittenAs scope final shape.kind core ∧
      type = core.nullableIf shape.nullable scope.settings.nullableType := by
  obtain ⟨parent, property, before, after, h, hle⟩ := h
  obtain ⟨kind, nullable, description⟩ := shape
  rw [type_mk] at h
  simp only [Session.bind_eq_ok, Session.pure_eq_ok, Session.settings_eq_ok] at h
  obtain ⟨core, _, hcore, settings, _, ⟨rfl, rfl⟩, rfl, rfl⟩ := h
  exact ⟨core, writtenAs_of_coreType hle hcore, rfl⟩

end Shape

end ApiScribe
