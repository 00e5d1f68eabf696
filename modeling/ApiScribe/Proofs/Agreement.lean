import ApiScribe.Proofs.Values

/-!
# Named and inline meaning

A named shape is written by two pieces of theory: as the declaration of its name, and as the type that
it would have without one.  They agree when the same values belong to both.

Both run through the same inner steps, so most of the comparison is about runs.  A step that reads of
the progress nothing but the hoisted enumerations can be repeated elsewhere
(`Session.DependsOnInlineEnums`), and where a name is not bound the steps of a declaration are those
of a type (`memberTypes_of_unbound` and the lemmas before it).  What is left are the places where the
two differ, and these are compared by their values:

* A composition without members is written as a type with every value in a declaration and as one
  without values elsewhere.
* A composition that extends a base is an interface in a declaration, and an interface has neither
  null nor `undefined`, whatever the reference to the base admits.
* An object without properties adds nothing to an interface, but elsewhere it asks for an object.

`declaration_agrees` says that there are no others: `Shape.SaysTheSame` lists what has to be true of a
composition, and the two ways of writing agree exactly if it is.  `exists_disagreement` is a shape
where they do not.
-/

namespace ApiScribe

open TypeScript

/-! ## Steps that can be repeated -/

namespace Session

variable {α β : Type} {scope : Scope}

/-- From progress with the same hoisted enumerations the step has the same outcome and leaves the
same hoisted enumerations. -/
def DependsOnInlineEnums (scope : Scope) (step : Session α) : Prop :=
  ∀ before other, before.inlineEnums = other.inlineEnums →
    (step scope before).1 = (step scope other).1 ∧
      (step scope before).2.inlineEnums = (step scope other).2.inlineEnums

theorem DependsOnInlineEnums.exists_run {step : Session α} {before after other : Progress}
    {result : α} (h : DependsOnInlineEnums scope step)
    (hrun : step scope before = (.ok result, after))
    (heq : before.inlineEnums = other.inlineEnums) :
    ∃ finish, step scope other = (.ok result, finish) ∧ finish.inlineEnums = after.inlineEnums := by
  obtain ⟨hresult, hinline⟩ := h before other heq
  rw [hrun] at hresult hinline
  exact ⟨(step scope other).2, Prod.ext hresult.symm rfl, hinline.symm⟩

theorem dependsOnInlineEnums_closed (scope : Scope) :
    Closed fun step => DependsOnInlineEnums scope step where
  pure _ _ _ h := ⟨rfl, h⟩
  bind {_ _ step next} hstep hnext before other h := by
    obtain ⟨hresult, hinline⟩ := hstep before other h
    rw [bind_apply, bind_apply]
    revert hresult hinline
    rcases step scope before with ⟨_ | value, between⟩ <;>
      rcases step scope other with ⟨_ | value', between'⟩ <;> intro hresult hinline <;>
      cases hresult
    · exact ⟨rfl, hinline⟩
    · exact hnext value between between' hinline
  settings _ _ h := ⟨rfl, h⟩
  shapeName _ _ _ h := ⟨rfl, h⟩
  reported _ _ _ h := ⟨rfl, h⟩
  setSubject _ _ _ h := ⟨rfl, h⟩

theorem hoist_dependsOnInlineEnums (requested : String) (values : List EnumValue) :
    DependsOnInlineEnums scope (hoist requested values) := by
  intro before other h
  obtain ⟨hname, hinline⟩ := Progress.hoist_congr h scope.shapeNames requested values
  exact ⟨congrArg Except.ok hname, hinline⟩

end Session

namespace Shape

variable {scope : Scope} {before after : Progress} {name : String}

theorem type_dependsOnInlineEnums (scope : Scope) (shape : Shape) (parent property : Option String) :
    Session.DependsOnInlineEnums scope (shape.type parent property) :=
  type_holds (Session.dependsOnInlineEnums_closed scope) shape property fun _ _ place _ values =>
    Session.hoist_dependsOnInlineEnums place values

/-! ## Names that are not bound -/

section Unbound

variable (hunbound : scope.bindingOf? name = none)
include hunbound

theorem properties_of_unbound (required : List String) (entries : List (String × Shape)) :
    properties (some name) (some name) required entries scope =
      propertyTypes (some name) none required entries scope := by
  funext before
  show propertyTypes (some name) (scope.bindingOf? name) required entries scope before = _
  rw [hunbound]

theorem ownObjectType_of_unbound {entries : List (String × Shape)} (hne : entries ≠ [])
    (required : List String) (additional : AdditionalValues) :
    ownObjectType name entries required additional scope =
      coreType (some name) none (.object entries required additional) scope := by
  have hempty : entries.isEmpty = false := by
    rwa [Bool.eq_false_iff, ne_eq, List.isEmpty_iff]
  funext before
  rw [ownObjectType_eq, coreType, hempty]
  show (properties (some name) (some name) required entries >>= _) scope before =
    (propertyTypes (some name) none required entries >>= _) scope before
  rw [Session.bind_apply, Session.bind_apply, properties_of_unbound hunbound]
  rfl

theorem memberType_of_unbound (member : Shape) :
    memberType name member scope = type (some name) none member scope := by
  obtain ⟨kind, nullable, description⟩ := member
  rw [memberType.eq_def]
  simp only
  split
  next entries required additional =>
    split
    · rfl
    next hne =>
      have hne : entries ≠ [] := fun hnil => hne (List.isEmpty_iff.mpr hnil)
      funext before
      rw [Session.settings_bind_comm, type_mk, Session.bind_apply, Session.bind_apply,
        ownObjectType_of_unbound hunbound hne]
  · rfl

theorem memberTypes_of_unbound (members : List Shape) :
    memberTypes name members scope = types (some name) none members scope := by
  induction members with
  | nil => rfl
  | cons member members ih =>
    funext before
    rw [memberTypes, types, Session.bind_apply, Session.bind_apply,
      memberType_of_unbound hunbound]
    rcases type (some name) none member scope before with ⟨_ | type, between⟩
    · rfl
    · simp only [Session.bind_apply, ih]

end Unbound

/-! ## What has to be true for the two to agree -/

/-- Nothing is lost or gained by making the other member of a composition the body of an interface
that extends the base: over the values of the reference to the base, the body says what the member
says. -/
def FitsBase (declarations : List Declaration) (reference : Ty) (extra : Option Shape) : Prop :=
  match extra.map Shape.kind with
  | some (.object [] _ .unspecified) => ∀ json, json ≠ .null →
    reference.Admits declarations json → ∃ members, json = .object members
  | some (.object [] _ .forbidden) => ∀ json, json ≠ .null →
    reference.Admits declarations json → json = .object []
  | some (.object _ _ _) => True
  | _ => ¬ reference.Admits declarations .null ∧ ¬ reference.AdmitsUndefined declarations

/-- The shape says the same under its name as in another place.  Only a composition of shapes that
hold all at once can fail to: it must have members, and if it extends a base the other member must
fit the base. -/
def SaysTheSame (scope : Scope) (declarations : List Declaration) (shape : Shape) : Prop :=
  ∀ members discriminator, shape.kind = .composition .allOf members discriminator →
    members ≠ [] ∧ ∀ pointer base extra,
      ExtendsBase scope.root shape.nullable members pointer extra →
      Pointer.shapeName scope.root pointer = .ok base →
      ∀ reference ∈ members, reference.isReference = true →
        FitsBase declarations
          ((Ty.named base).nullableIf reference.nullable scope.settings.nullableType) extra

/-- Where a base is extended, everything is about the reference to it. -/
theorem saysTheSame_iff_fitsBase {declarations : List Declaration} {members : List Shape}
    {discriminator : Option Discriminator} {nullable : Bool} {description : Option String}
    {pointer base : String} {extra : Option Shape} {reference : Shape}
    (hextends : ExtendsBase scope.root nullable members pointer extra)
    (hbase : Pointer.shapeName scope.root pointer = .ok base) (hmem : reference ∈ members)
    (hreference : reference.isReference = true) :
    SaysTheSame scope declarations
        ⟨.composition .allOf members discriminator, nullable, description⟩ ↔
      FitsBase declarations
        ((Ty.named base).nullableIf reference.nullable scope.settings.nullableType) extra := by
  constructor
  · intro h
    exact (h members discriminator rfl).2 pointer base extra hextends hbase reference hmem
      hreference
  · rintro h _ _ ⟨⟩
    refine ⟨List.ne_nil_of_mem hmem, fun pointer' base' extra' hextends' hbase' other hother
      hisReference => ?_⟩
    obtain rfl : pointer = pointer' :=
      List.singleton_inj.mp (hextends.pointers_eq.symm.trans hextends'.pointers_eq)
    obtain rfl : base = base' := Except.ok.inj (hbase.symm.trans hbase')
    obtain rfl : extra = extra' := by
      have hothers := hextends.others_eq.symm.trans hextends'.others_eq
      cases extra <;> cases extra' <;> cases hothers <;> rfl
    rw [hextends.eq_of_isReference hmem hreference hother hisReference]
    exact h

theorem saysTheSame_of_kind {declarations : List Declaration} {shape : Shape}
    (h : ∀ members discriminator, shape.kind ≠ .composition .allOf members discriminator) :
    SaysTheSame scope declarations shape :=
  fun members discriminator hkind => absurd hkind (h members discriminator)

/-! ## Interfaces that extend a base -/

section Base

variable {declarations : List Declaration} {base : String} (nullable : Bool) (style : NullableType)

/-- Apart from null, a reference has the values of the name. -/
theorem admits_reference_iff {json : Json} (hjson : json ≠ .null) :
    ((Ty.named base).nullableIf nullable style).Admits declarations json ↔
      (Ty.named base).Admits declarations json := by
  have hiff := @Ty.has_nullableIf_iff declarations (.named base) (some json) nullable style
  refine hiff.trans ⟨fun h => h.elim id fun ⟨_, hbottom⟩ => ?_, Or.inl⟩
  have hvalue := (Ty.has_bottom_iff style).mp hbottom
  cases style <;> cases hvalue
  exact absurd rfl hjson

/-- What an interface has is in the reference to its base and fits its body. -/
theorem has_extension_iff {properties : List Property} {index : Option Ty} {value : Option Json} :
    (DeclarationKind.interface [base] properties index).Has declarations value ↔
      ∃ json, value = some json ∧
        ((Ty.named base).nullableIf nullable style).Admits declarations json ∧
        BodyAdmits declarations properties index json := by
  rw [DeclarationKind.has_interface_iff]
  simp only [List.mem_singleton, forall_eq]
  refine exists_congr fun json => and_congr_right fun _ => and_congr_left fun hbody => ?_
  exact (admits_reference_iff nullable style hbody.ne_null).symm

end Base

/-- The type of the other member of a composition beside the body that it makes. -/
inductive BesideBody : Shape → InterfaceBody → Ty → Prop
  | unknown {description : Option String} :
    BesideBody ⟨.unknown, false, description⟩ ⟨[], none, []⟩ (.primitive .unknown)
  | record {entries : List (String × Shape)} {required : List String}
    {additional : AdditionalValues} {description : Option String} {properties : List Property}
    (hne : entries ≠ []) :
    BesideBody ⟨.object entries required additional, false, description⟩
      ⟨properties, openIndex additional, entries.map Prod.fst⟩
      (.object properties (openIndex additional))
  | unspecified {required : List String} {description : Option String} :
    BesideBody ⟨.object [] required .unspecified, false, description⟩ ⟨[], none, []⟩
      (Ty.dictionary (.primitive .unknown))
  | forbidden {required : List String} {description : Option String} :
    BesideBody ⟨.object [] required .forbidden, false, description⟩ ⟨[], none, []⟩
      (Ty.dictionary (.primitive .never))
  | unrestricted {required : List String} {description : Option String} :
    BesideBody ⟨.object [] required .unrestricted, false, description⟩
      ⟨[], some (.primitive .unknown), []⟩ (Ty.dictionary (.primitive .unknown))

section Values

variable {declarations : List Declaration} {reference : Ty}

/-- Values that are in the reference and not null are all its values if it has neither null nor
`undefined`. -/
theorem forall_ne_null_iff :
    (∀ value, (∃ json, value = some json ∧ reference.Admits declarations json ∧ json ≠ .null) ↔
        reference.Has declarations value) ↔
      ¬ reference.Admits declarations .null ∧ ¬ reference.AdmitsUndefined declarations := by
  constructor
  · intro h
    constructor
    · intro hnull
      obtain ⟨json, hjson, -, hne⟩ := (h (some .null)).mpr hnull
      exact hne (Option.some.inj hjson).symm
    · intro hundefined
      obtain ⟨json, hjson, -⟩ := (h none).mpr hundefined
      cases hjson
  · rintro ⟨hnull, hundefined⟩ value
    cases value with
    | none => exact iff_of_false (fun ⟨_, hjson, _⟩ => nomatch hjson) hundefined
    | some json =>
      constructor
      · rintro ⟨_, hjson, h, -⟩
        cases hjson
        exact h
      · intro h
        exact ⟨json, rfl, h, fun hjson => hnull (hjson ▸ h)⟩

/-- A type of JSON values without null: it is enough to compare it with a body value by value. -/
theorem forall_json_iff {body own : Json → Prop} {type : Ty}
    (hown : ∀ value, type.Has declarations value ↔ ∃ json, value = some json ∧ own json) :
    (∀ value, (∃ json, value = some json ∧ reference.Admits declarations json ∧ body json) ↔
        reference.Has declarations value ∧ type.Has declarations value) ↔
      ∀ json, reference.Admits declarations json → (body json ↔ own json) := by
  have hsome : ∀ json, type.Has declarations (some json) ↔ own json := fun json =>
    (hown (some json)).trans
      ⟨fun ⟨_, heq, h⟩ => Option.some.inj heq ▸ h, fun h => ⟨json, rfl, h⟩⟩
  constructor
  · intro h json href
    rw [← hsome]
    refine ⟨fun hbody => ((h (some json)).mp ⟨json, rfl, href, hbody⟩).2, fun htype => ?_⟩
    obtain ⟨_, hjson, -, hbody⟩ := (h (some json)).mpr ⟨href, htype⟩
    cases hjson
    exact hbody
  · intro h value
    constructor
    · rintro ⟨json, rfl, href, hbody⟩
      exact ⟨href, (hsome json).mpr ((h json href).mp hbody)⟩
    · rintro ⟨href, htype⟩
      obtain ⟨json, rfl, hjson⟩ := (hown value).mp htype
      exact ⟨json, rfl, href, (h json href).mpr hjson⟩

theorem has_dictionary_unknown_iff {value : Option Json} :
    (Ty.dictionary (.primitive .unknown)).Has declarations value ↔
      ∃ json, value = some json ∧ ∃ members, json = .object members := by
  rw [Ty.has_dictionary_iff]
  constructor
  · rintro ⟨members, rfl, -⟩
    exact ⟨_, rfl, members, rfl⟩
  · rintro ⟨_, rfl, members, rfl⟩
    exact ⟨members, rfl, fun member _ => Ty.Admits.unknown member.2⟩

theorem has_dictionary_never_iff {value : Option Json} :
    (Ty.dictionary (.primitive .never)).Has declarations value ↔
      ∃ json, value = some json ∧ json = .object [] := by
  rw [Ty.has_dictionary_iff]
  constructor
  · rintro ⟨members, rfl, hnever⟩
    cases members with
    | nil => exact ⟨_, rfl, rfl⟩
    | cons member members => exact nomatch hnever member List.mem_cons_self
  · rintro ⟨_, rfl, rfl⟩
    exact ⟨[], rfl, fun _ hmem => absurd hmem List.not_mem_nil⟩

/-- **The body and the member agree over the values of the base exactly if the member fits.** -/
theorem fitsBase_iff {extra : Shape} {body : InterfaceBody} {type : Ty}
    (h : BesideBody extra body type) :
    (∀ value, (∃ json, value = some json ∧ reference.Admits declarations json ∧
        BodyAdmits declarations body.properties body.index json) ↔
        reference.Has declarations value ∧ type.Has declarations value) ↔
      FitsBase declarations reference (some extra) := by
  cases h with
  | unknown =>
    simp only [bodyAdmits_nil_none_iff, Ty.has_unknown, and_true]
    exact forall_ne_null_iff
  | @record entries required additional description properties hne =>
    rw [forall_json_iff fun _ => Ty.has_object_iff]
    refine iff_of_true (fun _ _ => Iff.rfl) ?_
    cases entries with
    | nil => exact absurd rfl hne
    | cons entry entries => cases additional <;> trivial
  | unspecified =>
    rw [forall_json_iff fun _ => has_dictionary_unknown_iff]
    refine forall_congr' fun json => ?_
    rw [bodyAdmits_nil_none_iff]
    refine ⟨fun h hjson href => (h href).mp hjson, fun h href => ⟨fun hjson => h hjson href, ?_⟩⟩
    rintro ⟨members, rfl⟩
    exact Json.noConfusion
  | forbidden =>
    rw [forall_json_iff fun _ => has_dictionary_never_iff]
    refine forall_congr' fun json => ?_
    rw [bodyAdmits_nil_none_iff]
    refine ⟨fun h hjson href => (h href).mp hjson, fun h href => ⟨fun hjson => h hjson href, ?_⟩⟩
    rintro rfl
    exact Json.noConfusion
  | unrestricted =>
    rw [forall_json_iff fun _ => has_dictionary_unknown_iff]
    exact iff_of_true (fun _ _ => bodyAdmits_nil_unknown_iff) trivial

end Values

/-! ## The routes of a declaration -/

/-- An object with declared properties and no typed other ones is one object type. -/
theorem type_record {entries : List (String × Shape)} {required : List String}
    {additional : AdditionalValues} {description : Option String} {properties : List Property}
    (hne : entries ≠ []) (htyped : hasTypedValues additional = false)
    (h : propertyTypes (some name) none required entries scope before = (.ok properties, after)) :
    type (some name) none ⟨.object entries required additional, false, description⟩ scope before =
      (.ok (.object properties (openIndex additional)), after) := by
  have hempty : entries.isEmpty = false := by
    rwa [Bool.eq_false_iff, ne_eq, List.isEmpty_iff]
  rw [type_mk, Session.bind_eq_ok]
  refine ⟨_, after, ?_, rfl⟩
  simp only [coreType, hempty, Bool.false_eq_true, if_false, innerParent]
  rw [closedObjectType, Session.bind_eq_ok]
  refine ⟨properties, after, h, ?_⟩
  cases additional with
  | typed values => cases htyped
  | _ => rfl

theorem type_reference {pointer base : String}
    (hbase : Pointer.shapeName scope.root pointer = .ok base) (parent property : Option String)
    (nullable : Bool) (description : Option String) (before : Progress) :
    type parent property ⟨.reference pointer, nullable, description⟩ scope before =
      (.ok ((Ty.named base).nullableIf nullable scope.settings.nullableType), before) := by
  simp only [type_mk, coreType, Session.bind_eq_ok, Session.onRoot_eq_ok, Session.pure_eq_ok,
    Session.settings_eq_ok]
  exact ⟨_, _, ⟨base, _, ⟨hbase, rfl⟩, rfl, rfl⟩, _, _, ⟨rfl, rfl⟩, rfl, rfl⟩

theorem type_allOf {members : List Shape} {types : List Ty}
    (h : Shape.types (some name) none members scope before = (.ok types, after))
    (discriminator : Option Discriminator) (nullable : Bool) (description : Option String) :
    type (some name) none ⟨.composition .allOf members discriminator, nullable, description⟩ scope
        before =
      (.ok ((Ty.combine .intersection types).nullableIf nullable scope.settings.nullableType),
        after) := by
  simp only [type_mk, coreType, Session.bind_eq_ok, Session.pure_eq_ok, Session.settings_eq_ok]
  exact ⟨_, _, ⟨types, _, h, rfl, rfl⟩, _, _, ⟨rfl, rfl⟩, rfl, rfl⟩

/-- Where a body is written a type can be written, and it stands beside the body. -/
theorem exists_besideBody (hunbound : scope.bindingOf? name = none) {extra : Shape}
    {body : InterfaceBody}
    (h : interfaceBody name (some extra) scope before = (.ok (some body), after)) :
    ∃ type, extra.type (some name) none scope before = (.ok type, after) ∧
      BesideBody extra body type := by
  obtain ⟨kind, nullable, description⟩ := extra
  rw [interfaceBody.eq_def] at h
  simp only at h
  split at h
  · obtain ⟨h, rfl⟩ := Session.pure_eq_ok.mp h
    cases h
    exact ⟨_, rfl, BesideBody.unknown⟩
  next entries required additional =>
    split at h
    · obtain ⟨h, -⟩ := Session.pure_eq_ok.mp h
      cases h
    next htyped =>
      simp only [Session.bind_eq_ok, Session.pure_eq_ok, Option.some.injEq,
        properties_of_unbound hunbound] at h
      obtain ⟨properties, _, hproperties, rfl, rfl⟩ := h
      by_cases hne : entries = []
      · subst hne
        obtain ⟨rfl, rfl⟩ := Session.pure_eq_ok.mp hproperties
        cases additional with
        | unspecified => exact ⟨_, rfl, BesideBody.unspecified⟩
        | forbidden => exact ⟨_, rfl, BesideBody.forbidden⟩
        | unrestricted => exact ⟨_, rfl, BesideBody.unrestricted⟩
        | typed values => exact absurd rfl htyped
      · exact ⟨_, type_record hne (eq_false_of_ne_true htyped) hproperties,
          BesideBody.record hne⟩
  · obtain ⟨h, -⟩ := Session.pure_eq_ok.mp h
    cases h

/-- In another place the shape is written as a type, with the same enumerations hoisted, and the type
has the values of the declaration exactly if the shape says the same there. -/
def AgreesAt (scope : Scope) (name : String) (shape : Shape) (before after : Progress)
    (kind : DeclarationKind) : Prop :=
  ∃ type finish, shape.type (some name) none scope before = (.ok type, finish) ∧
    finish.inlineEnums = after.inlineEnums ∧
    ∀ declarations, (∀ value, kind.Has declarations value ↔ type.Has declarations value) ↔
      shape.SaysTheSame scope declarations

section Routes

variable {kind : DeclarationKind}

theorem agreesAt_alias {shape : Shape}
    (hkind : ∀ members discriminator, shape.kind ≠ .composition .allOf members discriminator)
    (h : (do let type ← shape.type (some name) none; pure (DeclarationKind.alias type) :
      Session DeclarationKind) scope before = (.ok kind, after)) :
    AgreesAt scope name shape before after kind := by
  simp only [Session.bind_eq_ok, Session.pure_eq_ok] at h
  obtain ⟨type, _, htype, rfl, rfl⟩ := h
  exact ⟨type, _, htype, rfl, fun declarations =>
    iff_of_true (fun _ => DeclarationKind.has_alias_iff) (saysTheSame_of_kind hkind)⟩

theorem agreesAt_enumeration {values : List EnumValue} {nullable : Bool}
    {description : Option String}
    (h : enumerationKind values nullable scope before = (.ok kind, after)) :
    AgreesAt scope name ⟨.enumeration values, nullable, description⟩ before after kind := by
  obtain ⟨rfl, hinline⟩ := enumerationKind_eq_ok h
  have htype : type (some name) none ⟨.enumeration values, nullable, description⟩ scope before =
      (.ok ((Ty.combine .union (values.map fun value => .literal value.literal)).nullableIf
        nullable scope.settings.nullableType), before) := by
    rw [type_mk]
    rfl
  refine ⟨_, _, htype, hinline.symm, fun declarations => iff_of_true (fun value => ?_)
    (saysTheSame_of_kind fun _ _ hkind => nomatch hkind)⟩
  rw [DeclarationKind.has_enumerationDeclaration_iff, Ty.has_nullableIf_iff,
    Ty.has_combine_union_iff]
  simp only [List.mem_map, exists_exists_and_eq_and]

theorem agreesAt_object (hunbound : scope.bindingOf? name = none)
    {entries : List (String × Shape)} {required : List String} {additional : AdditionalValues}
    {nullable : Bool} {description : Option String} (hne : entries ≠ [])
    (h : objectDeclarationKind name nullable entries required additional scope before =
      (.ok kind, after)) :
    AgreesAt scope name ⟨.object entries required additional, nullable, description⟩ before after
      kind := by
  have hkind : ∀ members discriminator, (ShapeKind.object entries required additional) ≠
      .composition .allOf members discriminator := fun _ _ hkind => nomatch hkind
  rw [objectDeclarationKind] at h
  split at h
  next hroute =>
    simp only [Session.bind_eq_ok, Session.pure_eq_ok, Session.settings_eq_ok,
      ownObjectType_of_unbound hunbound hne] at h
    obtain ⟨_, _, ⟨rfl, rfl⟩, core, _, hcore, rfl, rfl⟩ := h
    refine ⟨_, _, ?_, rfl, fun declarations =>
      iff_of_true (fun _ => DeclarationKind.has_alias_iff) (saysTheSame_of_kind hkind)⟩
    rw [type_mk, Session.bind_eq_ok]
    exact ⟨core, _, hcore, rfl⟩
  next hroute =>
    obtain ⟨rfl, htyped⟩ := Bool.or_eq_false_iff.mp (eq_false_of_ne_true hroute)
    simp only [Session.bind_eq_ok, Session.pure_eq_ok, properties_of_unbound hunbound] at h
    obtain ⟨properties, _, hproperties, rfl, rfl⟩ := h
    refine ⟨_, _, type_record hne htyped hproperties, rfl, fun declarations =>
      iff_of_true (fun value => ?_) (saysTheSame_of_kind hkind)⟩
    rw [DeclarationKind.has_interface_iff, Ty.has_object_iff]
    simp only [List.not_mem_nil, false_imp_iff, implies_true, true_and]

theorem types_cons_eq_ok {parent property : Option String} {shape : Shape} {shapes : List Shape}
    {type : Ty} {others : List Ty} {between : Progress}
    (htype : shape.type parent property scope before = (.ok type, between))
    (hothers : types parent property shapes scope between = (.ok others, after)) :
    types parent property (shape :: shapes) scope before = (.ok (type :: others), after) := by
  simp only [types, Session.bind_eq_ok, Session.pure_eq_ok]
  exact ⟨type, between, htype, others, after, hothers, rfl, rfl⟩

/-- The types of the members of a composition that extends a base, in some order. -/
theorem exists_types_of_extendsBase (hunbound : scope.bindingOf? name = none)
    {nullable : Bool} {members : List Shape} {pointer base : String} {extra : Option Shape}
    {body : InterfaceBody}
    (hextends : ExtendsBase scope.root nullable members pointer extra)
    (hbase : Pointer.shapeName scope.root pointer = .ok base)
    (hbody : interfaceBody name extra scope before = (.ok (some body), after)) :
    ∃ reference ∈ members, reference.isReference = true ∧ ∃ types,
      Shape.types (some name) none members scope before = (.ok types, after) ∧ types ≠ [] ∧
      ∀ declarations, (∀ value,
        (DeclarationKind.interface [base] body.properties body.index).Has declarations value ↔
          ∀ type ∈ types, type.Has declarations value) ↔
        FitsBase declarations
          ((Ty.named base).nullableIf reference.nullable scope.settings.nullableType) extra := by
  obtain ⟨⟨_, nullable, description⟩, rfl, hmembers⟩ := hextends.exists_reference
  have hreference := type_reference hbase (some name) none nullable description
  -- the interface in terms of the reference to its base
  have hinterface : ∀ declarations value,
      (DeclarationKind.interface [base] body.properties body.index).Has declarations value ↔
        ∃ json, value = some json ∧
          ((Ty.named base).nullableIf nullable scope.settings.nullableType).Admits declarations
            json ∧ BodyAdmits declarations body.properties body.index json :=
    fun _ _ => has_extension_iff nullable scope.settings.nullableType
  cases extra with
  | none =>
    obtain ⟨hbody, rfl⟩ := Session.pure_eq_ok.mp hbody
    cases hbody
    obtain rfl := hmembers.resolve_right fun ⟨_, hnone, _⟩ => nomatch hnone
    refine ⟨_, List.mem_cons_self, rfl, _, types_cons_eq_ok (hreference before) rfl,
      List.cons_ne_nil _ _, fun declarations => ?_⟩
    simp only [List.mem_singleton, forall_eq, hinterface, bodyAdmits_nil_none_iff]
    exact forall_ne_null_iff
  | some other =>
    obtain ⟨type, htype, hbeside⟩ := exists_besideBody hunbound hbody
    have hfits : ∀ types : List Ty, (∀ written, written ∈ types ↔
        written = (Ty.named base).nullableIf nullable scope.settings.nullableType ∨
          written = type) → ∀ declarations, (∀ value,
        (DeclarationKind.interface [base] body.properties body.index).Has declarations value ↔
          ∀ written ∈ types, written.Has declarations value) ↔
        FitsBase declarations
          ((Ty.named base).nullableIf nullable scope.settings.nullableType) (some other) := by
      intro types htypes declarations
      simp only [htypes, forall_eq_or_imp, forall_eq, hinterface]
      exact fitsBase_iff hbeside
    rcases hmembers with rfl | ⟨_, hother, rfl⟩
    · refine ⟨_, List.mem_cons_self, rfl, _,
        types_cons_eq_ok (hreference before) (types_cons_eq_ok htype rfl),
        List.cons_ne_nil _ _, hfits _ fun _ => List.mem_pair⟩
    · obtain rfl := Option.some.inj hother
      refine ⟨_, List.mem_cons_of_mem _ List.mem_cons_self, rfl, _,
        types_cons_eq_ok htype (types_cons_eq_ok (hreference after) rfl),
        List.cons_ne_nil _ _, hfits _ fun _ => List.mem_pair.trans or_comm⟩

/-- Without members the intersection of a declaration has every value, and that of another place none;
with members they are the same. -/
theorem has_intersect_iff_combine {declarations : List Declaration} {types : List Ty}
    {nullable : Bool} {style : NullableType} :
    (∀ value,
      (DeclarationKind.alias ((intersect types).nullableIf nullable style)).Has declarations value ↔
        ((Ty.combine .intersection types).nullableIf nullable style).Has declarations value) ↔
      types ≠ [] := by
  simp only [DeclarationKind.has_alias_iff, Ty.has_nullableIf_iff, Ty.has_intersect_iff,
    Ty.has_combine_intersection_iff]
  constructor
  · rintro h rfl
    rcases (h (some (.boolean true))).mp (Or.inl fun _ hmem => absurd hmem List.not_mem_nil) with
      ⟨hne, -⟩ | ⟨-, hbottom⟩
    · exact hne rfl
    · cases style <;> cases (Ty.has_bottom_iff _).mp hbottom
  · exact fun hne value => or_congr_left (and_iff_right hne).symm

theorem agreesAt_composition (hunbound : scope.bindingOf? name = none) {members : List Shape}
    {discriminator : Option Discriminator} {nullable : Bool} {description : Option String}
    (h : compositionKind name nullable members scope before = (.ok kind, after)) :
    AgreesAt scope name ⟨.composition .allOf members discriminator, nullable, description⟩ before
      after kind := by
  rw [compositionKind, Session.bind_eq_ok] at h
  obtain ⟨composed, between, hcomposed, h⟩ := h
  cases composed with
  | some composed =>
    obtain ⟨rfl, rfl⟩ := Session.pure_eq_ok.mp h
    cases composedAs_of_composedInterface hcomposed with
    | interface hextends hbase hbody =>
      obtain ⟨reference, hmem, hreference, types, htypes, hne, hfits⟩ :=
        exists_types_of_extendsBase hunbound hextends hbase hbody
      obtain rfl := hextends.nullable_eq
      refine ⟨Ty.combine .intersection types, between, type_allOf htypes discriminator false
        description, rfl, fun declarations => ?_⟩
      rw [saysTheSame_iff_fitsBase hextends hbase hmem hreference, ← hfits declarations]
      simp only [hunbound, withBoundProperty, Ty.has_combine_intersection_iff, ne_eq, hne,
        not_false_eq_true, true_and]
  | none =>
    simp only [Session.bind_eq_ok, Session.pure_eq_ok, Session.settings_eq_ok] at h
    obtain ⟨_, _, ⟨rfl, rfl⟩, types, finished, htypes, rfl, rfl⟩ := h
    cases composedAs_of_composedInterface hcomposed with
    | other hextends hbetween =>
      rw [memberTypes_of_unbound hunbound] at htypes
      -- the attempt at an interface has hoisted nothing
      obtain ⟨finish, hfinish, hinline⟩ := (type_dependsOnInlineEnums scope _ _ _).exists_run
        (type_allOf htypes discriminator nullable description) hbetween
      refine ⟨_, finish, hfinish, hinline, fun declarations => ?_⟩
      have hnil : types = [] ↔ members = [] := by
        rw [← List.length_eq_zero_iff, ← List.length_eq_zero_iff,
          (writtenAs_of_types (le_refl _) htypes).length_eq]
      rw [has_intersect_iff_combine, ne_eq, hnil]
      constructor
      · rintro hne _ _ ⟨⟩
        exact ⟨hne, fun pointer base extra hbase => absurd hbase (hextends pointer extra)⟩
      · exact fun h => (h members discriminator rfl).1

theorem agreesAt_declarationKind (hunbound : scope.bindingOf? name = none) {shape : Shape}
    (h : declarationKind name shape scope before = (.ok kind, after)) :
    AgreesAt scope name shape before after kind := by
  obtain ⟨core, nullable, description⟩ := shape
  rw [declarationKind.eq_def] at h
  simp only at h
  split at h
  · exact agreesAt_enumeration h
  · split at h
    next hempty =>
      refine agreesAt_alias (fun members discriminator hallOf => ?_) h
      cases hallOf
    next hne => exact agreesAt_object hunbound (fun hnil => hne (List.isEmpty_iff.mpr hnil)) h
  · exact agreesAt_composition hunbound h
  next hallOf =>
    exact agreesAt_alias (fun members discriminator hcore => hallOf members discriminator hcore) h

/-- **A named shape and the same shape in another place.**  Where no union binds the name, a shape that
can be declared can be written as a type, from the same progress and with the same enumerations
hoisted.  The values of the declaration are those of the type exactly if the shape says the same. -/
theorem declaration_agrees {shape : Shape} {declared : Declaration}
    (hunbound : scope.bindingOf? name = none)
    (h : declaration name shape scope before = (.ok declared, after)) :
    ∃ type finish, shape.type (some name) none scope before = (.ok type, finish) ∧
      finish.inlineEnums = after.inlineEnums ∧
      ∀ declarations,
        (∀ value, declared.kind.Has declarations value ↔ type.Has declarations value) ↔
          shape.SaysTheSame scope declarations := by
  simp only [declaration, Session.bind_eq_ok, Session.pure_eq_ok, Session.setSubject_eq_ok] at h
  obtain ⟨_, _, rfl, kind, finished, hkind, rfl, rfl⟩ := h
  obtain ⟨type, finish, htype, hinline, hagree⟩ := agreesAt_declarationKind hunbound hkind
  -- a declaration starts by changing the subject, which the type does not depend on
  have hstart : ({ before with subject := name } : Progress).inlineEnums = before.inlineEnums := rfl
  obtain ⟨finish, hrun, hfinish⟩ :=
    (type_dependsOnInlineEnums scope shape _ _).exists_run htype hstart
  exact ⟨type, finish, hrun, hfinish.trans hinline, hagree⟩

/-- A document that names one schema. -/
def petScope : Scope where
  root := .object [("components", .object [("schemas", .object
    [("Pet", .object [("type", .string "object")])])])]
  settings := {}
  bindings := []
  shapeNames := ["Pet"]

/-- A pet with a name. -/
def namedPet : Shape :=
  { kind := .composition .allOf
      [{ kind := .reference "#/components/schemas/Pet" },
        { kind := .object [("name", .string)] [] .unspecified }] none }

theorem declaration_agrees_namedPet :
    petScope.bindingOf? "NamedPet" = none ∧
      ∃ declared after type finish,
        declaration "NamedPet" namedPet petScope {} = (.ok declared, after) ∧
        namedPet.type (some "NamedPet") none petScope {} = (.ok type, finish) ∧
        finish.inlineEnums = after.inlineEnums ∧
        ∀ declarations value, declared.kind.Has declarations value ↔
          type.Has declarations value := by
  have hrun : (declaration "NamedPet" namedPet petScope {}).1.isOk = true := by decide +kernel
  rcases hdeclared : declaration "NamedPet" namedPet petScope {} with ⟨_ | declared, after⟩
  · rw [hdeclared] at hrun
    cases hrun
  obtain ⟨type, finish, htype, hinline, hagree⟩ := declaration_agrees rfl hdeclared
  refine ⟨rfl, declared, after, type, finish, rfl, htype, hinline, fun declarations => ?_⟩
  refine (hagree declarations).mpr ?_
  rintro _ _ ⟨⟩
  refine ⟨List.cons_ne_nil _ _, fun pointer base extra hextends _ _ _ _ => ?_⟩
  have hothers := hextends.others_eq
  cases extra with
  | none => cases hothers
  | some other =>
    cases hothers
    trivial

/-- A pet or null. -/
def maybePet : Shape :=
  { kind := .composition .allOf
      [{ kind := .reference "#/components/schemas/Pet", nullable := true }] none }

/-- **The two ways do not always agree.**  The interface that extends the base loses null. -/
theorem exists_disagreement :
    petScope.bindingOf? "MaybePet" = none ∧
      ∃ declared after type finish,
        declaration "MaybePet" maybePet petScope {} = (.ok declared, after) ∧
        maybePet.type (some "MaybePet") none petScope {} = (.ok type, finish) ∧
        ∀ declarations, type.Has declarations (some .null) ∧
          ¬ declared.kind.Has declarations (some .null) := by
  have hdeclared : declaration "MaybePet" maybePet petScope {} =
      (.ok { name := "MaybePet", kind := .interface ["Pet"] [] none },
        { subject := "MaybePet" }) := by rfl
  have htype : maybePet.type (some "MaybePet") none petScope {} =
      (.ok (.union [.named "Pet", .primitive .null]), {}) := by rfl
  refine ⟨rfl, _, _, _, _, hdeclared, htype, fun declarations => ⟨?_, ?_⟩⟩
  · exact Ty.Admits.union (List.mem_cons_of_mem _ List.mem_cons_self) Ty.Admits.null
  · intro h
    obtain ⟨_, hjson, -, hbody⟩ := DeclarationKind.has_interface_iff.mp h
    cases hjson
    exact hbody.ne_null rfl

end Routes

end Shape

end ApiScribe
