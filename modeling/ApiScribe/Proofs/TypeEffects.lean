import ApiScribe.Proofs.HoistingRun
import ApiScribe.Proofs.TypeOfShape
import ApiScribe.Shape.Declaration

/-!
# What writing a type does

Writing the type of a shape yields the type and leaves a progress.  This module forgets the type:
`Shape.typeEffects` lists what is done on the way, reports and requests to hoist, and is computed
from the shape and its place alone.  The document decides whether the type can be written at all,
and not what is done if it can (`Shape.type_leaves`).

A report is a diagnostic, and a request is one if the enumeration is new and gets another name than
the requested one.  So the effects determine what is recorded, down to the last diagnostic
(`Progress.performAll_diagnostics`).
-/

namespace ApiScribe

/-- Something that is done while a type is written. -/
inductive Effect where
  /-- Report about the current subject. -/
  | report (kind : DiagnosticKind)
  /-- Hoist an enumeration. -/
  | hoist (request : HoistRequest)

/-! ## Performing effects -/

namespace Progress

variable {shapeNames : List String}

/-- The progress after an effect. -/
def perform (shapeNames : List String) (progress : Progress) : Effect → Progress
  | .report kind => progress.report kind
  | .hoist request => (progress.hoist shapeNames request.name request.values).2

/-- The progress after effects, from the first to the last. -/
def performAll (shapeNames : List String) (effects : List Effect) (progress : Progress) :
    Progress :=
  effects.foldl (perform shapeNames) progress

/-- What an effect reports. -/
def reported (shapeNames : List String) (progress : Progress) : Effect → List DiagnosticKind
  | .report kind => [kind]
  | .hoist request =>
    let name := progress.hoistedName shapeNames request.name request.values
    if (progress.inlineEnum? name).isSome || name = request.name then []
    else [.hoistedNameCollision request.name name]

/-- What effects report, one after the other. -/
def reportedAll (shapeNames : List String) : List Effect → Progress → List DiagnosticKind
  | [], _ => []
  | effect :: rest, progress =>
    progress.reported shapeNames effect ++
      reportedAll shapeNames rest (progress.perform shapeNames effect)

/-- Diagnostics of the kinds, all about the current subject. -/
def about (progress : Progress) (kinds : List DiagnosticKind) : List Diagnostic :=
  kinds.map fun kind => { subject := progress.subject, kind }

theorem performAll_append (first second : List Effect) (progress : Progress) :
    performAll shapeNames (first ++ second) progress =
      performAll shapeNames second (performAll shapeNames first progress) :=
  List.foldl_append

theorem reportedAll_append (first second : List Effect) (progress : Progress) :
    reportedAll shapeNames (first ++ second) progress =
      reportedAll shapeNames first progress ++
        reportedAll shapeNames second (performAll shapeNames first progress) := by
  induction first generalizing progress with
  | nil => rfl
  | cons effect first ih =>
    rw [List.cons_append, reportedAll, reportedAll, ih, List.append_assoc]
    rfl

theorem withInlineEnum_subject (progress : Progress) (requested name : String)
    (values : List EnumValue) :
    (progress.withInlineEnum requested name values).subject = progress.subject := by
  show (if name = requested then progress
    else progress.report (.hoistedNameCollision requested name)).subject = _
  split <;> rfl

/-- An effect records what it reports, about the current subject, which stays. -/
theorem perform_records (shapeNames : List String) (progress : Progress) (effect : Effect) :
    (progress.perform shapeNames effect).subject = progress.subject ∧
      (progress.perform shapeNames effect).diagnostics =
        progress.diagnostics ++ progress.about (progress.reported shapeNames effect) := by
  cases effect with
  | report kind => exact ⟨rfl, rfl⟩
  | hoist request =>
    rw [perform, reported, hoist_eq]
    cases progress.inlineEnum? (progress.hoistedName shapeNames request.name request.values) with
    | some inline => exact ⟨rfl, (List.append_nil _).symm⟩
    | none =>
      refine ⟨withInlineEnum_subject _ _ _ _, (withInlineEnum_diagnostics _ _ _ _).trans ?_⟩
      simp only [Option.isSome_none, Bool.false_or, decide_eq_true_eq]
      split <;> rfl

/-- **Effects record exactly what they report**, all of it about one subject. -/
theorem performAll_diagnostics (effects : List Effect) (progress : Progress) :
    (performAll shapeNames effects progress).diagnostics =
      progress.diagnostics ++ progress.about (reportedAll shapeNames effects progress) := by
  induction effects generalizing progress with
  | nil => exact (List.append_nil _).symm
  | cons effect effects ih =>
    obtain ⟨hsubject, hdiagnostics⟩ := perform_records shapeNames progress effect
    have habout : (progress.perform shapeNames effect).about = progress.about := by
      funext kinds
      rw [about, about, hsubject]
    have hrest := ih (progress.perform shapeNames effect)
    rw [hdiagnostics, habout, List.append_assoc] at hrest
    exact hrest.trans (congrArg _ List.map_append.symm)

end Progress

/-! ## Steps and their effects -/

namespace Session

variable {α β : Type} {scope : Scope} {effects : List Effect}

/-- Wherever the step succeeds it has performed the effects, and nothing else. -/
def Leaves (scope : Scope) (effects : List Effect) (step : Session α) : Prop :=
  ∀ ⦃before result after⦄, step scope before = (.ok result, after) →
    after = before.performAll scope.shapeNames effects

theorem leaves_pure (value : α) : Leaves scope [] (pure value : Session α) :=
  fun _ _ _ h => (pure_eq_ok.mp h).2.symm

theorem leaves_settings : Leaves scope [] settings :=
  fun _ _ _ h => (settings_eq_ok.mp h).2.symm

theorem leaves_onRoot (compute : Json → Except CompileError α) :
    Leaves scope [] (onRoot compute) :=
  fun _ _ _ h => (onRoot_eq_ok.mp h).2.symm

theorem leaves_report (kind : DiagnosticKind) : Leaves scope [.report kind] (report kind) :=
  fun _ _ _ h => (report_eq_ok.mp h).symm

theorem leaves_hoist (requested : String) (values : List EnumValue) :
    Leaves scope [.hoist ⟨requested, values⟩] (hoist requested values) :=
  fun _ _ _ h => (congrArg Prod.snd (hoist_eq_ok.mp h)).symm

/-- Of two steps, the second performs its effects after the first. -/
theorem Leaves.bind {step : Session α} {next : α → Session β} {others : List Effect}
    (hstep : Leaves scope effects step) (hnext : ∀ value, Leaves scope others (next value)) :
    Leaves scope (effects ++ others) (step >>= next) := by
  intro before result after h
  obtain ⟨value, between, hfirst, hsecond⟩ := bind_eq_ok.mp h
  rw [Progress.performAll_append, ← hstep hfirst]
  exact hnext value hsecond

/-- What is computed from the result of a step has no effects. -/
theorem Leaves.map {step : Session α} (h : Leaves scope effects step) (f : α → β) :
    Leaves scope effects (do let value ← step; pure (f value)) := by
  have hbind := h.bind fun value => leaves_pure (f value)
  rwa [List.append_nil] at hbind

end Session

namespace Shape

open TypeScript

/-! ## The effects of writing a type -/

/-- What writing an enumeration at a place does. -/
def enumerationEffects (parent property : Option String) (values : List EnumValue) : List Effect :=
  match parent, property with
  | some parent, some property => [.hoist ⟨placeName parent property, values⟩]
  | _, _ => []

/-- What writing an object with declared properties does. -/
def closedObjectEffects (properties : List Effect) (additional : AdditionalValues)
    (values : List Effect) : List Effect :=
  properties ++
    if hasTypedValues additional then .report .typedAdditionalProperties :: values else []

mutual

/-- What writing the type of a shape at a place does. -/
def typeEffects (parent property : Option String) : Shape → List Effect
  | ⟨kind, _, _⟩ =>
    match kind with
    | .array items => typeEffects parent property items
    | .object properties _ additional =>
      let inner := innerParent parent property
      let values : List Effect := match additional with
        | .typed values => typeEffects inner none values
        | _ => []
      if properties.isEmpty then values
      else closedObjectEffects (propertyEffects inner none properties) additional values
    | .enumeration values => enumerationEffects parent property values
    | .composition _ members _ => typesEffects parent property members
    | .unclassified typeName => [.report (.unclassifiedSchema typeName)]
    | _ => []

/-- What writing the types of shapes at a place does. -/
def typesEffects (parent property : Option String) : List Shape → List Effect
  | [] => []
  | shape :: rest => typeEffects parent property shape ++ typesEffects parent property rest

/-- What writing the properties of an object inside a declaration does.  Nothing is done for the one
with the binding. -/
def propertyEffects (parent : Option String) (binding : Option Binding) :
    List (String × Shape) → List Effect
  | [] => []
  | (name, shape) :: rest =>
    (if (binding.filter fun binding => binding.property = name).isSome then []
      else typeEffects parent (some name) shape) ++ propertyEffects parent binding rest

end

/-- What writing the values of other properties does, where it matters. -/
def typedEffects (parent : Option String) : AdditionalValues → List Effect
  | .typed values => typeEffects parent none values
  | _ => []

theorem typeEffects_object (parent property : Option String) (properties : List (String × Shape))
    (required : List String) (additional : AdditionalValues) (nullable : Bool)
    (description : Option String) :
    typeEffects parent property ⟨.object properties required additional, nullable, description⟩ =
      if properties.isEmpty then typedEffects (innerParent parent property) additional
      else closedObjectEffects (propertyEffects (innerParent parent property) none properties)
        additional (typedEffects (innerParent parent property) additional) := by
  cases additional <;> rfl

/-! ## What the steps leave -/

section Leaves

open Session

variable {scope : Scope} {effects values : List Effect}

theorem enumerationType_leaves (parent property : Option String) (enumeration : List EnumValue) :
    Leaves scope (enumerationEffects parent property enumeration)
      (enumerationType parent property enumeration) := by
  cases parent with
  | none => exact leaves_pure _
  | some parent =>
    cases property with
    | none => exact leaves_pure _
    | some property => exact (leaves_hoist _ _).map _

theorem openObjectType_leaves (parent : Option String) {additional : AdditionalValues}
    {type : Session Ty} (htype : Leaves scope (typedEffects parent additional) type) :
    Leaves scope (typedEffects parent additional) (openObjectType additional type) := by
  cases additional with
  | typed _ => exact htype.map _
  | _ => exact leaves_pure _

theorem closedObjectType_leaves {properties : Session (List Property)} {type : Session Ty}
    (hproperties : Leaves scope effects properties) (htype : Leaves scope values type)
    (additional : AdditionalValues) :
    Leaves scope (closedObjectEffects effects additional values)
      (closedObjectType properties additional type) := by
  refine hproperties.bind fun _ => ?_
  cases additional with
  | typed _ => exact (leaves_report _).bind fun _ => htype.map _
  | _ => exact leaves_pure _

theorem types_leaves {parent property : Option String} {shapes : List Shape}
    (h : ∀ shape ∈ shapes, Leaves scope (typeEffects parent property shape)
      (type parent property shape)) :
    Leaves scope (typesEffects parent property shapes) (types parent property shapes) := by
  induction shapes with
  | nil => exact leaves_pure _
  | cons shape shapes ih =>
    obtain ⟨hshape, hshapes⟩ := List.forall_mem_cons.mp h
    exact hshape.bind fun _ => (ih hshapes).map _

theorem propertyTypes_leaves {parent : Option String} {binding : Option Binding}
    {required : List String} {properties : List (String × Shape)}
    (h : ∀ entry ∈ properties, ∀ property, Leaves scope (typeEffects parent property entry.2)
      (type parent property entry.2)) :
    Leaves scope (propertyEffects parent binding properties)
      (propertyTypes parent binding required properties) := by
  induction properties with
  | nil => exact leaves_pure _
  | cons entry properties ih =>
    obtain ⟨hentry, hproperties⟩ := List.forall_mem_cons.mp h
    rw [propertyTypes, propertyEffects]
    -- the settings are read first, which has no effects
    refine leaves_settings.bind fun settings => ?_
    cases binding.filter fun binding => decide (binding.property = entry.1) with
    | some binding => exact (leaves_pure _).bind fun _ => (ih hproperties).map _
    | none =>
      exact (hentry (some entry.1)).bind fun _ =>
        (leaves_pure _).bind fun _ => (ih hproperties).map _

/-- **Writing a type does what the shape says**, at every place and in every document. -/
theorem type_leaves (shape : Shape) : ∀ parent property : Option String,
    Leaves scope (typeEffects parent property shape) (type parent property shape) := by
  -- what is left after the kind is the reading of the settings
  have hcore : ∀ {parent property kind nullable description effects},
      Leaves scope effects (coreType parent property kind) →
        Leaves scope effects (type parent property ⟨kind, nullable, description⟩) := by
    intro parent property kind nullable description effects h
    rw [type_mk, ← List.append_nil effects]
    exact h.bind fun _ => leaves_settings.map _
  induction shape using Shape.induct with
  | primitive => exact fun _ _ => hcore (leaves_settings.map _)
  | array items _ _ ih => exact fun parent property => hcore ((ih parent property).map _)
  | object properties required additional _ _ ihproperties ihadditional =>
    intro parent property
    rw [typeEffects_object]
    have hvalues : Leaves scope (typedEffects (innerParent parent property) additional)
        (typedValues (innerParent parent property) additional) := by
      cases additional with
      | typed values => exact ihadditional values rfl _ none
      | _ => exact leaves_pure _
    refine hcore ?_
    rw [coreType]
    split
    · exact openObjectType_leaves _ hvalues
    · have hproperties : Leaves scope
          (propertyEffects (innerParent parent property) none properties)
          (propertyTypes (innerParent parent property) none required properties) :=
        propertyTypes_leaves fun entry hentry name => ihproperties entry hentry _ name
      exact closedObjectType_leaves hproperties hvalues additional
  | reference => exact fun _ _ => hcore ((leaves_onRoot _).map _)
  | enumeration values =>
    exact fun parent property => hcore (enumerationType_leaves parent property values)
  | composition kind members _ _ _ ih =>
    intro parent property
    have hmembers := types_leaves fun member hmember => ih member hmember parent property
    exact hcore (hmembers.map _)
  | constant => exact fun _ _ => hcore (leaves_pure _)
  | unknown => exact fun _ _ => hcore (leaves_pure _)
  | unclassified => exact fun _ _ => hcore ((leaves_report _).map _)

end Leaves

end Shape

end ApiScribe
