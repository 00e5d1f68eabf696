import ApiScribe.Proofs.References
import ApiScribe.Proofs.Signatures

/-!
# The names in signatures

Around the shapes in the signature of a method there is no declaration, so no enumeration is hoisted
there, and the only names in their types are those of references.  `Shape.RefersTo` looks for these
references in the shape itself, at any depth, and `Shape.mentions_iff` says that they are all that the
type mentions.

The enumerations that were hoisted earlier do not matter either: a step that hoists nothing runs in
the same way without them (`Session.ForgetsInlineEnums`).  That is why the analysis of types that were
written (`Shape.WrittenAs.cases`) can be used for a session in which none was ever hoisted.

`Client.mem_imports_iff` puts this together: a client imports the names that its operations refer to.
-/

namespace ApiScribe

open TypeScript

/-! ## Names in types that are put together -/

namespace TypeScript.Ty

variable {name : String}

@[simp]
theorem not_mentions_primitive {primitive : Primitive} :
    ¬ (Ty.primitive primitive).Mentions name := by
  intro h
  cases h

@[simp]
theorem not_mentions_literal {literal : Literal} : ¬ (Ty.literal literal).Mentions name := by
  intro h
  cases h

theorem mentions_union_iff {members : List Ty} :
    (Ty.union members).Mentions name ↔ ∃ type ∈ members, type.Mentions name := by
  constructor
  · intro h
    cases h with
    | union hmem h => exact ⟨_, hmem, h⟩
  · rintro ⟨type, hmem, h⟩
    exact .union hmem h

theorem mentions_intersection_iff {members : List Ty} :
    (Ty.intersection members).Mentions name ↔ ∃ type ∈ members, type.Mentions name := by
  constructor
  · intro h
    cases h with
    | intersection hmem h => exact ⟨_, hmem, h⟩
  · rintro ⟨type, hmem, h⟩
    exact .intersection hmem h

theorem mentions_dictionary_iff {value : Ty} :
    (Ty.dictionary value).Mentions name ↔ value.Mentions name := by
  constructor
  · intro h
    cases h with
    | key h => exact absurd h not_mentions_primitive
    | value h => exact h
  · exact fun h => .value h

theorem mentions_combine_iff {wrap : List Ty → Ty} {types : List Ty}
    (hwrap : (wrap types).Mentions name ↔ ∃ type ∈ types, type.Mentions name) :
    (Ty.combine wrap types).Mentions name ↔ ∃ type ∈ types, type.Mentions name := by
  rw [Ty.combine.eq_def]
  split
  next => simp
  next => simp
  next => exact hwrap

/-- The bottom has no name. -/
theorem mentions_withBottom_iff {type : Ty} {bottom : Primitive} :
    (type.withBottom bottom).Mentions name ↔ type.Mentions name := by
  rw [Ty.withBottom.eq_def]
  split
  next members =>
    split
    · rfl
    · rw [mentions_union_iff, mentions_union_iff]
      simp [or_and_right, exists_or]
  next =>
    split
    · rfl
    · rw [mentions_union_iff]
      simp

theorem mentions_nullableIf_iff {type : Ty} {nullable : Bool} {style : NullableType} :
    (type.nullableIf nullable style).Mentions name ↔ type.Mentions name := by
  rw [Ty.nullableIf]
  split
  · exact mentions_withBottom_iff
  · rfl

end TypeScript.Ty

/-! ## Steps that hoist nothing -/

/-- The progress without the hoisted enumerations. -/
def Progress.unhoisted (progress : Progress) : Progress :=
  { progress with inlineEnums := [] }

/-- The step runs in the same way when the hoisted enumerations are forgotten. -/
def Session.ForgetsInlineEnums {α : Type} (scope : Scope) (step : Session α) : Prop :=
  ∀ before, step scope before.unhoisted =
    ((step scope before).1, (step scope before).2.unhoisted)

theorem Session.forgetsInlineEnums_closed (scope : Scope) :
    Session.Closed fun step => Session.ForgetsInlineEnums scope step where
  pure _ _ := rfl
  bind {_ _ step _} hstep hnext before := by
    rw [Session.bind_apply, Session.bind_apply, hstep before]
    rcases step scope before with ⟨_ | value, between⟩
    · rfl
    · exact hnext value between
  settings _ := rfl
  shapeName _ _ := rfl
  reported _ _ := rfl
  setSubject _ _ := rfl

/-! ## References inside shapes -/

/-- The shape is directly inside a shape of the kind. -/
inductive ShapeKind.HasPart : ShapeKind → Shape → Prop
  | items (items : Shape) : HasPart (.array items) items
  | property {entries : List (String × Shape)} {required : List String}
    {additional : AdditionalValues} {entry : String × Shape} (hmem : entry ∈ entries) :
    HasPart (.object entries required additional) entry.2
  | values {entries : List (String × Shape)} {required : List String} (values : Shape) :
    HasPart (.object entries required (.typed values)) values
  | member {kind : CompositionKind} {members : List Shape} {discriminator : Option Discriminator}
    {member : Shape} (hmem : member ∈ members) :
    HasPart (.composition kind members discriminator) member

/-- Somewhere in the shape is a reference that leads to the shape of the name. -/
inductive Shape.RefersTo (root : Json) (name : String) : Shape → Prop
  | reference {shape : Shape} {pointer : String} (hkind : shape.kind = .reference pointer)
    (hname : Pointer.shapeName root pointer = .ok name) : RefersTo root name shape
  | inside {shape part : Shape} (hpart : shape.kind.HasPart part) (h : RefersTo root name part) :
    RefersTo root name shape

namespace Shape

variable {root : Json} {scope : Scope} {final : Progress} {name : String}

/-- A shape that is no reference refers to what its parts refer to. -/
theorem refersTo_iff_of_parts {shape : Shape} (h : ∀ pointer, shape.kind ≠ .reference pointer) :
    shape.RefersTo root name ↔ ∃ part, shape.kind.HasPart part ∧ part.RefersTo root name := by
  constructor
  · intro hrefers
    cases hrefers with
    | reference hkind => exact absurd hkind (h _)
    | inside hpart hrefers => exact ⟨_, hpart, hrefers⟩
  · rintro ⟨part, hpart, hrefers⟩
    exact .inside hpart hrefers

/-- Properties mention what the shapes that they are written from refer to. -/
theorem mentions_iff_of_properties {required : List String} {entries : List (String × Shape)}
    {properties : List Property}
    (h : List.Forall₂ (PropertyWrittenAs scope final none required) entries properties)
    (hentries : ∀ entry ∈ entries, ∀ type, WrittenAs scope final entry.2 type →
      (type.Mentions name ↔ entry.2.RefersTo scope.root name)) :
    (∃ property ∈ properties, property.type.Mentions name) ↔
      ∃ entry ∈ entries, entry.2.RefersTo scope.root name := by
  induction h with
  | nil => simp
  | cons hhead _ ih =>
    obtain ⟨hentry, hrest⟩ := List.forall_mem_cons.mp hentries
    rw [List.exists_mem_cons_iff, List.exists_mem_cons_iff, ih hrest]
    refine or_congr_left ?_
    cases hhead with
    | bound hbinding _ => cases hbinding
    | free _ htype => exact hentry _ htype

theorem mentions_iff_of_types {members : List Shape} {types : List Ty}
    (h : List.Forall₂ (WrittenAs scope final) members types)
    (hmembers : ∀ member ∈ members, ∀ type, WrittenAs scope final member type →
      (type.Mentions name ↔ member.RefersTo scope.root name)) :
    (∃ type ∈ types, type.Mentions name) ↔
      ∃ member ∈ members, member.RefersTo scope.root name := by
  induction h with
  | nil => simp
  | cons hhead _ ih =>
    obtain ⟨hmember, hrest⟩ := List.forall_mem_cons.mp hmembers
    rw [List.exists_mem_cons_iff, List.exists_mem_cons_iff, ih hrest, hmember _ hhead]

/-- What objects mention and refer to: their properties, and the values of others. -/
theorem mentions_iff_of_record {properties : List Property} {additional : AdditionalValues}
    {type : Ty} (h : RecordWrittenAs scope final properties additional type)
    (hvalues : ∀ values, additional = .typed values → ∀ type, WrittenAs scope final values type →
      (type.Mentions name ↔ values.RefersTo scope.root name)) :
    type.Mentions name ↔ (∃ property ∈ properties, property.type.Mentions name) ∨
      ∃ values, additional = .typed values ∧ values.RefersTo scope.root name := by
  have hobject : ∀ index, (∀ type, index = some type → ¬ type.Mentions name) →
      ((Ty.object properties index).Mentions name ↔
        ∃ property ∈ properties, property.type.Mentions name) := by
    intro index hindex
    constructor
    · intro h
      cases h with
      | property hmem h => exact ⟨_, hmem, h⟩
      | index h => exact absurd h (hindex _ rfl)
    · rintro ⟨property, hmem, h⟩
      exact .property hmem h
  cases h with
  | unspecified => simpa using hobject none (by simp)
  | forbidden => simpa using hobject none (by simp)
  | unrestricted => simpa using hobject (some (.primitive .unknown)) (by simp)
  | @typed values written _ _ hwritten =>
    rw [Ty.mentions_intersection_iff]
    simp [hobject none (by simp), Ty.mentions_dictionary_iff, hvalues values rfl written hwritten]

theorem hasPart_object_iff {entries : List (String × Shape)} {required : List String}
    {additional : AdditionalValues} {P : Shape → Prop} :
    (∃ part, (ShapeKind.object entries required additional).HasPart part ∧ P part) ↔
      (∃ entry ∈ entries, P entry.2) ∨ ∃ values, additional = .typed values ∧ P values := by
  constructor
  · rintro ⟨part, hpart, h⟩
    cases hpart with
    | property hmem => exact Or.inl ⟨_, hmem, h⟩
    | values => exact Or.inr ⟨_, rfl, h⟩
  · rintro (⟨entry, hmem, h⟩ | ⟨values, rfl, h⟩)
    · exact ⟨_, .property hmem, h⟩
    · exact ⟨_, .values values, h⟩

/-- **Where nothing was hoisted, a type mentions what its shape refers to**, and nothing else. -/
theorem mentions_iff (hnone : final.inlineEnums = []) (shape : Shape) :
    ∀ type, WrittenAs scope final shape type →
      (type.Mentions name ↔ shape.RefersTo scope.root name) := by
  have hcore : ∀ {shape : Shape},
      (∀ core, CoreWrittenAs scope final shape.kind core →
        (core.Mentions name ↔ shape.RefersTo scope.root name)) →
      ∀ type, WrittenAs scope final shape type →
        (type.Mentions name ↔ shape.RefersTo scope.root name) := by
    intro shape h type hwritten
    obtain ⟨core, hcore, rfl⟩ := hwritten.cases
    rw [Ty.mentions_nullableIf_iff, h core hcore]
  have hplain : ∀ {shape : Shape}, (∀ pointer, shape.kind ≠ .reference pointer) →
      (∀ part, ¬ shape.kind.HasPart part) → ¬ shape.RefersTo scope.root name := by
    intro shape hreference hpart h
    obtain ⟨part, h, -⟩ := (refersTo_iff_of_parts hreference).mp h
    exact hpart part h
  induction shape using Shape.induct with
  | primitive primitive format nullable description =>
    refine hcore fun core h => ?_
    cases h
    refine iff_of_false ?_ (hplain (by simp) (by rintro _ ⟨⟩))
    cases primitive with
    | string =>
      rw [PrimitiveType.type]
      split <;> simp
    | _ => simp [PrimitiveType.type]
  | array items nullable description ih =>
    refine hcore fun core h => ?_
    cases h with
    | array hitem =>
      rw [refersTo_iff_of_parts (by simp)]
      constructor
      · intro hmentions
        cases hmentions with
        | array hmentions => exact ⟨items, .items items, (ih _ hitem).mp hmentions⟩
      · rintro ⟨part, hpart, hrefers⟩
        cases hpart
        exact .array ((ih _ hitem).mpr hrefers)
  | object entries required additional nullable description ihentries ihvalues =>
    refine hcore fun core h => ?_
    rw [refersTo_iff_of_parts (by simp), hasPart_object_iff]
    cases h with
    | dictionary htype =>
      rw [or_iff_right (by simp)]
      cases htype with
      | @typed values type htype =>
        simp [Ty.mentions_dictionary_iff, ihvalues values rfl type htype]
      | _ => simp [Ty.mentions_dictionary_iff]
    | object _ hproperties htype =>
      rw [mentions_iff_of_record htype ihvalues, mentions_iff_of_properties hproperties ihentries]
  | reference pointer nullable description =>
    refine hcore fun core h => ?_
    cases h with
    | reference hname =>
      constructor
      · intro hmentions
        cases hmentions
        exact .reference rfl hname
      · intro hrefers
        cases hrefers with
        | reference hkind hother =>
          obtain rfl := ShapeKind.reference.inj hkind
          obtain rfl := Except.ok.inj (hname.symm.trans hother)
          exact .named
        | inside hpart => cases hpart
  | enumeration values nullable description =>
    refine hcore fun core h => ?_
    refine iff_of_false ?_ (hplain (by simp) (by rintro _ ⟨⟩))
    cases h with
    | hoisted hmem =>
      rw [hnone] at hmem
      cases hmem
    | literals =>
      rw [Ty.mentions_combine_iff Ty.mentions_union_iff]
      rintro ⟨type, hmem, hmentions⟩
      obtain ⟨value, -, rfl⟩ := List.mem_map.mp hmem
      exact absurd hmentions Ty.not_mentions_literal
  | composition kind members discriminator nullable description ih =>
    refine hcore fun core h => ?_
    cases h with
    | @composition _ _ _ types htypes =>
      have hwrap : ((if kind = .allOf then Ty.intersection else Ty.union) types).Mentions name ↔
          ∃ type ∈ types, type.Mentions name := by
        split
        · exact Ty.mentions_intersection_iff
        · exact Ty.mentions_union_iff
      rw [Ty.mentions_combine_iff hwrap, mentions_iff_of_types htypes ih,
        refersTo_iff_of_parts (by simp)]
      constructor
      · rintro ⟨member, hmem, hrefers⟩
        exact ⟨member, .member hmem, hrefers⟩
      · rintro ⟨member, hpart, hrefers⟩
        cases hpart with
        | member hmem => exact ⟨member, hmem, hrefers⟩
  | constant value nullable description =>
    refine hcore fun core h => ?_
    cases h
    exact iff_of_false (by simp) (hplain (by simp) (by rintro _ ⟨⟩))
  | unknown nullable description =>
    refine hcore fun core h => ?_
    cases h
    exact iff_of_false (by simp) (hplain (by simp) (by rintro _ ⟨⟩))
  | unclassified typeName nullable description =>
    refine hcore fun core h => ?_
    cases h
    exact iff_of_false (by simp) (hplain (by simp) (by rintro _ ⟨⟩))

/-- So does a type that is written where no declaration is around, whatever was hoisted before. -/
theorem StandsAs.mentions_iff {shape : Shape} {type : Ty} (h : shape.StandsAs scope type) :
    type.Mentions name ↔ shape.RefersTo scope.root name := by
  obtain ⟨before, after, h⟩ := h
  have hforgets := type_holds (Session.forgetsInlineEnums_closed scope) shape none
    HoistHolds.none before
  rw [h] at hforgets
  have hwritten : WrittenAs scope after.unhoisted shape type :=
    ⟨none, none, _, _, hforgets, le_refl _⟩
  exact Shape.mentions_iff rfl shape type hwritten

end Shape

/-! ## References in operations -/

namespace Client

/-- The type of a parameter with the role comes from the shape. -/
inductive Role.HasShape : Role → Shape → Prop
  | path (parameter : OperationParameter) : HasShape (.path parameter) parameter.shape
  | body (content : RequestBody) : HasShape (.body content) content.shape
  | query {parameters : List OperationParameter} {parameter : OperationParameter}
    (hmem : parameter ∈ parameters) : HasShape (.query parameters) parameter.shape

end Client

/-- The operation refers to the shape of the name: in its parameters, its body or its answer. -/
def Operation.RefersTo (root : Json) (name : String) (operation : Operation) : Prop :=
  (∃ role ∈ operation.roles, ∃ shape, role.HasShape shape ∧ shape.RefersTo root name) ∨
    ∃ shape, operation.response = some shape ∧ shape.RefersTo root name

namespace Client

variable {scope : Scope} {final : Progress} {name : String}

theorem Role.HasType.mentions_iff {role : Role} {type : Ty} (h : role.HasType scope type) :
    type.Mentions name ↔ ∃ shape, role.HasShape shape ∧ shape.RefersTo scope.root name := by
  cases h with
  | path h =>
    rw [h.mentions_iff]
    refine ⟨fun hrefers => ⟨_, .path _, hrefers⟩, ?_⟩
    rintro ⟨shape, hshape, hrefers⟩
    cases hshape
    exact hrefers
  | free =>
    refine iff_of_false Ty.not_mentions_primitive ?_
    rintro ⟨shape, hshape, -⟩
    cases hshape
  | body h =>
    rw [h.mentions_iff]
    refine ⟨fun hrefers => ⟨_, .body _, hrefers⟩, ?_⟩
    rintro ⟨shape, hshape, hrefers⟩
    cases hshape
    exact hrefers
  | @query parameters properties h =>
    constructor
    · intro hmentions
      cases hmentions with
      | property hmem hmentions =>
        obtain ⟨parameter, hparameter, hproperty⟩ := exists_of_forall₂_right h hmem
        exact ⟨_, .query hparameter, hproperty.type.mentions_iff.mp hmentions⟩
    · rintro ⟨shape, hshape, hrefers⟩
      cases hshape with
      | query hmem =>
        obtain ⟨property, hproperty, hfor⟩ := exists_of_forall₂_left h hmem
        exact .property hproperty (hfor.type.mentions_iff.mpr hrefers)

theorem Role.IsPlayedBy.mentions_iff {role : Role} {parameter : TypeScript.Parameter}
    (h : role.IsPlayedBy scope parameter) : parameter.type.Mentions name ↔
      ∃ shape, role.HasShape shape ∧ shape.RefersTo scope.root name := by
  obtain ⟨-, type, htype, ⟨heq, -⟩ | ⟨heq, -, -⟩⟩ := h
  · rw [heq, htype.mentions_iff]
  · rw [heq, Ty.mentions_withBottom_iff, htype.mentions_iff]

theorem mentions_iff_of_isAnswer {response : Option Shape} {type : Ty}
    (h : IsAnswer scope response type) :
    type.Mentions name ↔ ∃ shape, response = some shape ∧ shape.RefersTo scope.root name := by
  cases response with
  | none =>
    rw [show type = .primitive .void from h]
    simp
  | some shape =>
    rw [Shape.StandsAs.mentions_iff h]
    simp

/-- **The signature of a method mentions what its operation refers to.** -/
theorem Assembles.mentions_iff {operation : Operation} {function : Function}
    (h : Assembles scope operation function) :
    Mentions name function ↔ operation.RefersTo scope.root name := by
  rw [Mentions, Operation.RefersTo]
  refine or_congr ?_ ?_
  · constructor
    · rintro ⟨parameter, hmem, hmentions⟩
      obtain ⟨role, hrole, hplayed⟩ := exists_of_forall₂_right h.parameters hmem
      exact ⟨role, hrole, hplayed.mentions_iff.mp hmentions⟩
    · rintro ⟨role, hrole, hrefers⟩
      obtain ⟨parameter, hmem, hplayed⟩ := exists_of_forall₂_left h.parameters hrole
      exact ⟨parameter, hmem, hplayed.mentions_iff.mpr hrefers⟩
  · obtain ⟨response, hresult, hanswer, -⟩ := h.result
    rw [← mentions_iff_of_isAnswer hanswer, hresult]
    constructor
    · rintro ⟨type, htype, hmentions⟩
      obtain rfl := Option.some.inj htype
      cases hmentions with
      | argument hmem hmentions =>
        rw [List.mem_singleton.mp hmem] at hmentions
        exact hmentions
    · exact fun hmentions => ⟨_, rfl, .argument (List.mem_singleton_self _) hmentions⟩

/-- **A client imports what its operations refer to.** -/
theorem IsRun.mem_imports_iff {client : Client} {functions : List Function}
    (h : client.IsRun scope final functions) :
    name ∈ client.imports ↔ ∃ operation ∈ client.operations, operation.RefersTo scope.root name := by
  rw [h.mem_imports]
  constructor
  · rintro ⟨function, hmem, hmentions⟩
    obtain ⟨operation, hoperation, hassembles⟩ := exists_of_forall₂_right h.assembles hmem
    exact ⟨operation, hoperation, hassembles.mentions_iff.mp hmentions⟩
  · rintro ⟨operation, hmem, hrefers⟩
    obtain ⟨function, hfunction, hassembles⟩ := exists_of_forall₂_left h.assembles hmem
    exact ⟨function, hfunction, hassembles.mentions_iff.mpr hrefers⟩

end Client

end ApiScribe
