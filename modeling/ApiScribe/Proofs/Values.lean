import ApiScribe.Proofs.Soundness

/-!
# The values of a type

`Ty.Admits` is about JSON values.  A place in a program can also hold `undefined`, which no JSON value
is, and which nullable types admit if the settings say so.  Here a value is an optional JSON value:
`some` value, or `none` for `undefined`.

`Ty.Has` says that a value belongs to a type.  The lemmas `has_..._iff` take it apart, one for each way
in which types are put together here.  An equation between two such descriptions is how two types are
shown to have the same values, or not.
-/

namespace ApiScribe

namespace TypeScript

mutual

/-- The types that `undefined` belongs to, among these declarations. -/
inductive Ty.AdmitsUndefined (declarations : List Declaration) : Ty → Prop
  | undefined : Ty.AdmitsUndefined declarations (.primitive .undefined)
  | void : Ty.AdmitsUndefined declarations (.primitive .void)
  | unknown : Ty.AdmitsUndefined declarations (.primitive .unknown)
  | union {members : List Ty} {type : Ty} (hmem : type ∈ members)
    (h : Ty.AdmitsUndefined declarations type) : Ty.AdmitsUndefined declarations (.union members)
  | intersection {members : List Ty} (h : ∀ type ∈ members, Ty.AdmitsUndefined declarations type) :
    Ty.AdmitsUndefined declarations (.intersection members)
  | named {declaration : Declaration} (hmem : declaration ∈ declarations)
    (h : DeclarationKind.AdmitsUndefined declarations declaration.kind) :
    Ty.AdmitsUndefined declarations (.named declaration.name)

/-- The same of declarations: an interface never has it. -/
inductive DeclarationKind.AdmitsUndefined (declarations : List Declaration) : DeclarationKind → Prop
  | aliased {type : Ty} (h : Ty.AdmitsUndefined declarations type) :
    DeclarationKind.AdmitsUndefined declarations (.alias type)
  | bottom {style : EnumStyle} {members : List EnumMember} {bottom : Primitive}
    (h : Ty.AdmitsUndefined declarations (.primitive bottom)) :
    DeclarationKind.AdmitsUndefined declarations (.enumeration style members (some bottom))

end

/-- The value belongs to the type; `none` is `undefined`. -/
def Ty.Has (declarations : List Declaration) (type : Ty) : Option Json → Prop
  | some value => type.Admits declarations value
  | none => type.AdmitsUndefined declarations

/-- The value belongs to what is declared. -/
def DeclarationKind.Has (declarations : List Declaration) (kind : DeclarationKind) :
    Option Json → Prop
  | some value => kind.Admits declarations value
  | none => kind.AdmitsUndefined declarations

variable {declarations : List Declaration} {type : Ty} {types : List Ty} {value : Option Json}

/-! ## Types -/

namespace Ty

theorem has_unknown : (Ty.primitive .unknown).Has declarations value := by
  cases value with
  | none => exact AdmitsUndefined.unknown
  | some value => exact Admits.unknown value

theorem not_has_never : ¬ (Ty.primitive .never).Has declarations value := by
  intro h
  cases value <;> cases h

theorem has_union_iff :
    (Ty.union types).Has declarations value ↔ ∃ type ∈ types, type.Has declarations value := by
  cases value with
  | none =>
    constructor
    · intro h
      cases h with
      | union hmem h => exact ⟨_, hmem, h⟩
    · rintro ⟨type, hmem, h⟩
      exact AdmitsUndefined.union hmem h
  | some value =>
    constructor
    · intro h
      cases h with
      | union hmem h => exact ⟨_, hmem, h⟩
    · rintro ⟨type, hmem, h⟩
      exact Admits.union hmem h

theorem has_intersection_iff :
    (Ty.intersection types).Has declarations value ↔
      ∀ type ∈ types, type.Has declarations value := by
  cases value with
  | none =>
    constructor
    · intro h
      cases h with
      | intersection h => exact h
    · exact AdmitsUndefined.intersection
  | some value =>
    constructor
    · intro h
      cases h with
      | intersection h => exact h
    · exact Admits.intersection

/-- The bottom of nullable types is the one value that it is named after. -/
theorem has_bottom_iff (style : NullableType) :
    (Ty.primitive style.bottom).Has declarations value ↔
      value = match style with
        | .null => some .null
        | .undefined => none := by
  cases style with
  | null =>
    constructor
    · intro h
      cases value <;> cases h
      rfl
    · rintro rfl
      exact Admits.null
  | undefined =>
    constructor
    · intro h
      cases value <;> cases h
      rfl
    · rintro rfl
      exact AdmitsUndefined.undefined

theorem has_withBottom_iff (bottom : Primitive) :
    (type.withBottom bottom).Has declarations value ↔
      type.Has declarations value ∨ (Ty.primitive bottom).Has declarations value := by
  rw [Ty.withBottom.eq_def]
  split
  next members =>
    split
    next hany =>
      -- the bottom is a member already
      obtain ⟨member, hmem, hbottom⟩ := List.any_eq_true.mp hany
      rw [eq_of_isPrimitive hbottom] at hmem
      refine ⟨Or.inl, fun h => h.elim id fun h => ?_⟩
      exact has_union_iff.mpr ⟨_, hmem, h⟩
    next => simp only [has_union_iff, List.mem_append, List.mem_singleton, or_and_right, exists_or,
      exists_eq_left]
  next =>
    split
    next hbottom =>
      rw [eq_of_isPrimitive hbottom, or_self]
    next => simp only [has_union_iff, List.mem_cons, List.not_mem_nil, or_false, or_and_right,
      exists_or, exists_eq_left]

theorem has_nullableIf_iff (nullable : Bool) (style : NullableType) :
    (type.nullableIf nullable style).Has declarations value ↔ type.Has declarations value ∨
      nullable = true ∧ (Ty.primitive style.bottom).Has declarations value := by
  cases nullable with
  | false => simp only [nullableIf, Bool.false_eq_true, if_false, false_and, or_false]
  | true => simp only [nullableIf, if_true, has_withBottom_iff, true_and]

theorem has_combine_union_iff :
    (combine .union types).Has declarations value ↔ ∃ type ∈ types, type.Has declarations value := by
  match types with
  | [] => simp only [combine, not_has_never, List.not_mem_nil, false_and, exists_false]
  | [only] => simp only [combine, List.mem_singleton, exists_eq_left]
  | first :: second :: rest => exact has_union_iff

/-- Without members there is no value. -/
theorem has_combine_intersection_iff :
    (combine .intersection types).Has declarations value ↔
      types ≠ [] ∧ ∀ type ∈ types, type.Has declarations value := by
  match types with
  | [] => simp only [combine, not_has_never, ne_eq, not_true_eq_false, false_and]
  | [only] => simp only [combine, ne_eq, List.cons_ne_nil, not_false_eq_true, true_and,
      List.mem_singleton, forall_eq]
  | first :: second :: rest =>
    exact has_intersection_iff.trans (and_iff_right (List.cons_ne_nil _ _)).symm

/-- Without members there is every value. -/
theorem has_intersect_iff :
    (Shape.intersect types).Has declarations value ↔ ∀ type ∈ types, type.Has declarations value := by
  match types with
  | [] => exact iff_of_true has_unknown fun _ hmem => absurd hmem List.not_mem_nil
  | [only] => simp only [Shape.intersect, List.mem_singleton, forall_eq]
  | first :: second :: rest => exact has_intersection_iff

theorem has_object_iff {properties : List Property} {index : Option Ty} :
    (Ty.object properties index).Has declarations value ↔
      ∃ json, value = some json ∧ BodyAdmits declarations properties index json := by
  cases value with
  | none => exact iff_of_false nofun nofun
  | some json =>
    constructor
    · intro h
      cases h with
      | object h => exact ⟨json, rfl, h⟩
    · rintro ⟨_, hvalue, h⟩
      cases hvalue
      exact Admits.object h

theorem has_dictionary_iff :
    (dictionary type).Has declarations value ↔
      ∃ members, value = some (.object members) ∧
        ∀ member ∈ members, type.Admits declarations member.2 := by
  rw [dictionary]
  cases value with
  | none => exact iff_of_false nofun nofun
  | some json =>
    constructor
    · intro h
      cases h with
      | record h => exact ⟨_, rfl, h⟩
    · rintro ⟨_, hvalue, h⟩
      cases hvalue
      exact Admits.record h

end Ty

/-! ## Declarations -/

/-- An interface without members of its own has every value but null. -/
theorem bodyAdmits_nil_none_iff {json : Json} :
    BodyAdmits declarations [] none json ↔ json ≠ .null := by
  constructor
  · intro h
    cases h with
    | empty h => exact h
    | object => exact Json.noConfusion
  · exact BodyAdmits.empty

theorem bodyAdmits_nil_unknown_iff {json : Json} :
    BodyAdmits declarations [] (some (.primitive .unknown)) json ↔
      ∃ members, json = .object members := by
  constructor
  · intro h
    cases h with
    | object => exact ⟨_, rfl⟩
  · rintro ⟨members, rfl⟩
    refine BodyAdmits.object (fun _ hmem => absurd hmem List.not_mem_nil)
      (fun _ hmem => absurd hmem List.not_mem_nil) fun type htype member _ => ?_
    rw [← Option.some.inj htype]
    exact Ty.Admits.unknown member.2

/-- Properties leave no room for null. -/
theorem BodyAdmits.ne_null {properties : List Property} {index : Option Ty} {json : Json}
    (h : BodyAdmits declarations properties index json) : json ≠ .null := by
  cases h with
  | empty h => exact h
  | object => exact Json.noConfusion

namespace DeclarationKind

theorem has_alias_iff :
    (DeclarationKind.alias type).Has declarations value ↔ type.Has declarations value := by
  cases value with
  | none =>
    constructor
    · intro h
      cases h with
      | aliased h => exact h
    · exact AdmitsUndefined.aliased
  | some json =>
    constructor
    · intro h
      cases h with
      | aliased h => exact h
    · exact Admits.aliased

theorem has_interface_iff {bases : List String} {properties : List Property} {index : Option Ty} :
    (DeclarationKind.interface bases properties index).Has declarations value ↔
      ∃ json, value = some json ∧ (∀ base ∈ bases, (Ty.named base).Admits declarations json) ∧
        BodyAdmits declarations properties index json := by
  cases value with
  | none => exact iff_of_false nofun nofun
  | some json =>
    constructor
    · intro h
      cases h with
      | interface hbases hbody => exact ⟨json, rfl, hbases, hbody⟩
    · rintro ⟨_, hvalue, hbases, hbody⟩
      cases hvalue
      exact Admits.interface hbases hbody

theorem has_enumeration_iff {style : EnumStyle} {members : List EnumMember}
    {bottom : Option Primitive} :
    (DeclarationKind.enumeration style members bottom).Has declarations value ↔
      (∃ member ∈ members, (Ty.literal member.value).Has declarations value) ∨
        ∃ primitive, bottom = some primitive ∧ (Ty.primitive primitive).Has declarations value := by
  cases value with
  | none =>
    constructor
    · intro h
      cases h with
      | bottom h => exact Or.inr ⟨_, rfl, h⟩
    · rintro (⟨_, _, ⟨⟩⟩ | ⟨_, rfl, h⟩)
      exact AdmitsUndefined.bottom h
  | some json =>
    constructor
    · intro h
      cases h with
      | member hmem h => exact Or.inl ⟨_, hmem, Ty.Admits.literal h⟩
      | bottom h => exact Or.inr ⟨_, rfl, h⟩
    · rintro (⟨member, hmem, h⟩ | ⟨_, rfl, h⟩)
      · cases h with
        | literal h => exact Admits.member hmem h
      · exact Admits.bottom h

/-- **The values of a declared enumeration** are those that it lists, in every style, and the bottom if
it is nullable. -/
theorem has_enumerationDeclaration_iff {settings : Settings} {values : List EnumValue}
    {nullable : Bool} :
    (Shape.enumerationDeclaration settings values nullable).Has declarations value ↔
      (∃ listed ∈ values, (Ty.literal listed.literal).Has declarations value) ∨
        nullable = true ∧ (Ty.primitive settings.nullableType.bottom).Has declarations value := by
  rw [Shape.enumerationDeclaration, has_enumeration_iff]
  refine or_congr ?_ ?_
  · have hmembers : (∃ member ∈ EnumValue.members values,
        (Ty.literal member.value).Has declarations value) ↔
        ∃ literal ∈ (EnumValue.members values).map EnumMember.value,
          (Ty.literal literal).Has declarations value := by
      simp only [List.mem_map, exists_exists_and_eq_and]
    rw [hmembers, EnumValue.map_value_members]
    simp only [List.mem_map, exists_exists_and_eq_and]
  · cases nullable <;> simp

end DeclarationKind

end TypeScript

end ApiScribe
