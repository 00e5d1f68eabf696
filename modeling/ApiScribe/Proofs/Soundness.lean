import ApiScribe.Proofs.Layout
import ApiScribe.Proofs.Meaning
import ApiScribe.Proofs.UnionBindings

/-!
# The generated types are sound

Whatever a shape accepts, the type that it is written as admits, and so does its declaration.

The proof is by induction on the derivation that a value is accepted, since types refer to each
other through names.  `Sound` is the statement about one shape and one value: it holds of each way
in which the shape can occur, as a type, as a member of a named composition, as the body of an
interface, and as a declaration.  `sound_of_accepts` goes through the constructors of
`Shape.Accepts`.

There is one exception.  A composition with one named base is declared as an interface, and null
belongs to no interface, but the shape accepts null if the reference to the base does.
`generate_sound` says that this is all that can go wrong.
-/

namespace ApiScribe

open TypeScript

/-! ## Numbers and literals -/

theorem Binary64.value?_of_isZero {x : Binary64} (h : x.isZero = true) : x.value? = some 0 := by
  cases x with
  | finite negative significand exponent =>
    rw [isZero, beq_iff_eq] at h
    rw [value?, h, Nat.cast_zero, mul_zero, zero_mul]
  | infinite => cases h
  | notANumber => cases h

theorem Binary64.value?_of_sameNumber {x y : Binary64} (h : x.sameNumber y = true) :
    x.value? = y.value? := by
  cases x with
  | notANumber => cases h
  | _ =>
    rw [sameNumber, Bool.or_eq_true, beq_iff_eq, Bool.and_eq_true] at h
    · rcases h with rfl | ⟨hx, hy⟩
      · rfl
      · rw [value?_of_isZero hx, value?_of_isZero hy]
    · exact fun heq => nomatch heq

/-- Values that count as the same when enumerations are compared stand for the same JSON values. -/
theorem EnumValue.Denotes.of_same {x y : EnumValue} {value : Json} (h : x.same y = true)
    (hy : y.Denotes value) : x.Denotes value := by
  rw [same.eq_def] at h
  split at h
  · cases hy with
    | float hvalue hnumber =>
      exact Denotes.float ((Binary64.value?_of_sameNumber h).trans hvalue) hnumber
  · rw [beq_iff_eq.mp h]
    exact hy

theorem EnumValue.exists_of_sameList {xs ys : List EnumValue} (h : sameList xs ys = true)
    {y : EnumValue} (hmem : y ∈ ys) : ∃ x ∈ xs, x.same y = true := by
  induction xs generalizing ys with
  | nil =>
    cases ys with
    | nil => cases hmem
    | cons => cases h
  | cons x xs ih =>
    cases ys with
    | nil => cases h
    | cons first ys =>
      rw [sameList, Bool.and_eq_true] at h
      rcases List.mem_cons.mp hmem with rfl | hmem
      · exact ⟨x, List.mem_cons_self, h.1⟩
      · obtain ⟨other, hother, hsame⟩ := ih h.2 hmem
        exact ⟨other, List.mem_cons_of_mem _ hother, hsame⟩

/-- The literal for a value stands for the same JSON values. -/
theorem EnumValue.Denotes.literal {listed : EnumValue} {value : Json} (h : listed.Denotes value) :
    listed.literal.Denotes value := by
  cases h with
  | string text => exact Literal.Denotes.string text
  | integer h => exact Literal.Denotes.integer h
  | float hvalue h => exact Literal.Denotes.number hvalue h
  | boolean flag => exact Literal.Denotes.boolean flag
  | null => exact Literal.Denotes.null

theorem EnumKey.map_snd_assignFrom (used : List String) (index : Nat) (values : List EnumValue) :
    (assignFrom used index values).map Prod.snd = values := by
  induction values generalizing used index with
  | nil => rfl
  | cons value values ih => exact congrArg _ (ih _ _)

/-- The members of an enumeration have the values that it lists, in their order. -/
theorem EnumValue.map_value_members (values : List EnumValue) :
    (members values).map EnumMember.value = values.map EnumValue.literal := by
  conv_rhs => rw [← EnumKey.map_snd_assignFrom [] 0 values]
  rw [members, EnumKey.assign, List.map_map, List.map_map]
  rfl

/-- Every value of an enumeration is that of a member. -/
theorem EnumValue.exists_member {listed : EnumValue} {values : List EnumValue}
    (h : listed ∈ values) : ∃ member ∈ members values, member.value = listed.literal := by
  rw [← List.mem_map, map_value_members]
  exact List.mem_map_of_mem h

/-! ## Types with a bottom -/

namespace TypeScript.Ty

variable {declarations : List Declaration} {type : Ty} {value : Json}

theorem Admits.withBottom (h : type.Admits declarations value) (bottom : Primitive) :
    (type.withBottom bottom).Admits declarations value := by
  rw [Ty.withBottom.eq_def]
  split
  next members =>
    split
    · exact h
    · cases h with
      | union hmem h => exact Admits.union (List.mem_append_left _ hmem) h
  next =>
    split
    · exact h
    · exact Admits.union List.mem_cons_self h

theorem admits_withBottom_null (type : Ty) :
    (type.withBottom .null).Admits declarations .null := by
  rw [Ty.withBottom.eq_def]
  split
  next members =>
    split
    next hany =>
      obtain ⟨member, hmem, hnull⟩ := List.any_eq_true.mp hany
      rw [eq_of_isPrimitive hnull] at hmem
      exact Admits.union hmem Admits.null
    next =>
      exact Admits.union (List.mem_append_right _ (List.mem_singleton_self _)) Admits.null
  next =>
    split
    next hnull =>
      rw [eq_of_isPrimitive hnull]
      exact Admits.null
    next => exact Admits.union (List.mem_cons_of_mem _ List.mem_cons_self) Admits.null

/-- What belongs to a name belongs to a declaration of that name. -/
theorem Admits.exists_declaration {name : String} (h : (Ty.named name).Admits declarations value) :
    ∃ declaration ∈ declarations, declaration.name = name ∧
      declaration.kind.Admits declarations value := by
  generalize htype : Ty.named name = type at h
  cases h with
  | named hmem h => exact ⟨_, hmem, (Ty.named.inj htype).symm, h⟩
  | _ => cases htype

/-- Adding null to the name of a declaration adds no other value. -/
theorem Admits.of_named_nullableIf {name : String} {nullable : Bool}
    (h : ((Ty.named name).nullableIf nullable .null).Admits declarations value)
    (hvalue : value ≠ .null) : (Ty.named name).Admits declarations value := by
  cases nullable with
  | false => exact h
  | true =>
    change (Ty.union [.named name, .primitive .null]).Admits declarations value at h
    cases h with
    | union hmem h =>
      rcases List.mem_pair.mp hmem with rfl | rfl
      · exact h
      · cases h
        exact absurd rfl hvalue

theorem Admits.nullableIf (h : type.Admits declarations value) (nullable : Bool) :
    (type.nullableIf nullable .null).Admits declarations value := by
  rw [Ty.nullableIf]
  split
  · exact h.withBottom _
  · exact h

theorem admits_combine_intersection {types : List Ty} (hne : types ≠ [])
    (h : ∀ type ∈ types, type.Admits declarations value) :
    (combine .intersection types).Admits declarations value := by
  rw [combine.eq_def]
  split
  · exact absurd rfl hne
  · exact h _ (List.mem_singleton_self _)
  · exact Admits.intersection h

theorem admits_combine_union {types : List Ty} (hmem : type ∈ types)
    (h : type.Admits declarations value) :
    (combine .union types).Admits declarations value := by
  rw [combine.eq_def]
  split
  · cases hmem
  · rw [← List.mem_singleton.mp hmem]
    exact h
  · exact Admits.union hmem h

theorem admits_intersect {types : List Ty} (h : ∀ type ∈ types, type.Admits declarations value) :
    (Shape.intersect types).Admits declarations value := by
  rw [Shape.intersect.eq_def]
  split
  · exact Admits.unknown value
  · exact h _ (List.mem_singleton_self _)
  · exact Admits.intersection h

end TypeScript.Ty

/-! ## What the proof knows of a session -/

namespace Shape

/-- A session whose settings change nothing about values, in which no shape is bound and no object
has typed values besides declared ones, together with its declarations. -/
structure PlainSession (shapes : List NamedShape) (scope : Scope) (final : Progress)
    (declarations : List Declaration) : Prop where
  style : scope.settings.propertyNameStyle = .unchanged
  bottom : scope.settings.nullableType = .null
  dates : scope.settings.dateType = .string
  unbound : scope.bindings = []
  untyped : ∀ diagnostic ∈ final.diagnostics, diagnostic.kind ≠ .typedAdditionalProperties
  nonempty : ∀ named ∈ shapes, named.shape.hasNoEmptyAllOf = true
  declared : ∀ named ∈ shapes, ∃ declaration ∈ declarations, declaration.name = named.name ∧
    DeclaredAs scope final named.name named.shape declaration.kind
  hoisted : ∀ inline ∈ final.inlineEnums, inline.declared scope.settings ∈ declarations
  noNull : ∀ named ∈ shapes, named.shape.Accepts scope.root shapes .null →
    ∀ declaration ∈ declarations, declaration.name = named.name →
      declaration.kind.isInterface = false

/-- The value, which the shape accepts, fits everything that the shape is written as: its type,
its type as a member of a named composition, the body of an interface with its properties, and its
declaration, as long as null is not to fit an interface. -/
structure Sound (scope : Scope) (final : Progress) (declarations : List Declaration) (shape : Shape)
    (value : Json) : Prop where
  type : ∀ core, CoreWrittenAs scope final shape.kind core →
    (core.nullableIf shape.nullable .null).Admits declarations value
  member : ∀ name type, MemberWrittenAs scope final name shape type →
    type.Admits declarations value
  body : shape.nullable = false → ∀ entries required additional properties index,
    shape.kind = .object entries required additional →
    List.Forall₂ (PropertyWrittenAs scope final none required) entries properties →
    (∀ type, index = some type → type = .primitive .unknown) →
    BodyAdmits declarations properties index value
  declaration : ∀ name kind, DeclaredAs scope final name shape kind →
    (value = .null → kind.isInterface = false) → kind.Admits declarations value

section Sound

variable {shapes : List NamedShape} {scope : Scope} {final : Progress}
  {declarations : List Declaration} {shape : Shape} {value : Json}

theorem PlainSession.bindingOf?_eq (session : PlainSession shapes scope final declarations)
    (name : String) : scope.bindingOf? name = none := by
  rw [Scope.bindingOf?, session.unbound, Table.get?_nil]

/-- A value fits the type of a shape if it fits the type of its kind. -/
theorem admits_of_writtenAs (session : PlainSession shapes scope final declarations)
    (h : ∀ core, CoreWrittenAs scope final shape.kind core →
      (core.nullableIf shape.nullable .null).Admits declarations value) {type : Ty}
    (htype : WrittenAs scope final shape type) : type.Admits declarations value := by
  obtain ⟨core, hcore, rfl⟩ := htype.cases
  rw [session.bottom]
  exact h core hcore

theorem Sound.admits (session : PlainSession shapes scope final declarations)
    (h : Sound scope final declarations shape value) {type : Ty}
    (htype : WrittenAs scope final shape type) : type.Admits declarations value :=
  admits_of_writtenAs session h.type htype

/-! ## Null -/

/-- Null fits everything that a nullable shape is written as. -/
theorem sound_null (session : PlainSession shapes scope final declarations) {kind : ShapeKind}
    {description : Option String} :
    Sound scope final declarations ⟨kind, true, description⟩ .null where
  type core _ := Ty.admits_withBottom_null core
  member name type h := by
    cases h with
    | own =>
      rw [session.bottom]
      exact Ty.admits_withBottom_null _
    | other _ htype =>
      exact admits_of_writtenAs session (fun core _ => Ty.admits_withBottom_null core) htype
  body h := nomatch h
  declaration name kind h _ := by
    cases h with
    | enumeration =>
      rw [enumerationDeclaration, session.bottom]
      exact DeclarationKind.Admits.bottom Ty.Admits.null
    | record =>
      rw [session.bottom]
      exact DeclarationKind.Admits.aliased (Ty.admits_withBottom_null _)
    | intersection =>
      rw [session.bottom]
      exact DeclarationKind.Admits.aliased (Ty.admits_withBottom_null _)
    | plain _ htype =>
      exact DeclarationKind.Admits.aliased
        (admits_of_writtenAs session (fun core _ => Ty.admits_withBottom_null core) htype)

/-! ## Shapes that are no objects -/

/-- Is a shape of the kind an object? -/
def isObject : ShapeKind → Bool
  | .object .. => true
  | _ => false

/-- A shape that is no object occurs as a type, unless it is declared in a way of its own. -/
theorem sound_of_type (session : PlainSession shapes scope final declarations)
    (hobject : isObject shape.kind = false)
    (htype : ∀ core, CoreWrittenAs scope final shape.kind core → core.Admits declarations value)
    (hdeclaration : isPlain shape.kind = false → ∀ name kind,
      DeclaredAs scope final name shape kind → (value = .null → kind.isInterface = false) →
        kind.Admits declarations value) :
    Sound scope final declarations shape value := by
  have hcore : ∀ core, CoreWrittenAs scope final shape.kind core →
      (core.nullableIf shape.nullable .null).Admits declarations value := by
    intro core h
    exact (htype core h).nullableIf shape.nullable
  refine ⟨hcore, ?_, ?_, ?_⟩
  · intro name type h
    cases h with
    | own => cases hobject
    | other _ htype => exact admits_of_writtenAs session hcore htype
  · intro _ entries required additional _ _ hkind
    rw [hkind] at hobject
    cases hobject
  · intro name kind h hnull
    cases hplain : isPlain shape.kind with
    | false => exact hdeclaration hplain name kind h hnull
    | true =>
      cases h with
      | plain _ htype =>
        exact DeclarationKind.Admits.aliased (admits_of_writtenAs session hcore htype)
      | interface => cases hobject
      | record => cases hobject
      | _ => cases hplain

/-- A shape that is no object and is declared as an alias occurs only as a type. -/
theorem sound_of_plain (session : PlainSession shapes scope final declarations)
    (hobject : isObject shape.kind = false) (hplain : isPlain shape.kind = true)
    (htype : ∀ core, CoreWrittenAs scope final shape.kind core → core.Admits declarations value) :
    Sound scope final declarations shape value := by
  refine sound_of_type session hobject htype ?_
  intro hroute
  rw [hplain] at hroute
  cases hroute

theorem admits_primitive (session : PlainSession shapes scope final declarations)
    {type : PrimitiveType} (h : type.Holds value) (format : Option String) :
    (type.type scope.settings format).Admits declarations value := by
  cases h with
  | string text =>
    have hdate : scope.settings.dateType ≠ .date := by
      rw [session.dates]
      exact fun heq => nomatch heq
    rw [PrimitiveType.type, if_neg fun h => hdate h.1]
    exact Ty.Admits.string text
  | number number => exact Ty.Admits.number number
  | integer number => exact Ty.Admits.number number
  | boolean flag => exact Ty.Admits.boolean flag
  | null => exact Ty.Admits.null

/-- A listed value fits the declaration of an enumeration, in every style. -/
theorem admits_enumerationDeclaration {settings : Settings} {values : List EnumValue}
    {nullable : Bool} {listed : EnumValue} (hlisted : listed ∈ values) (h : listed.Denotes value) :
    (enumerationDeclaration settings values nullable).Admits declarations value := by
  obtain ⟨member, hmember, hvalue⟩ := EnumValue.exists_member hlisted
  exact DeclarationKind.Admits.member hmember (hvalue ▸ h.literal)

/-- A listed value fits the type of an enumeration, hoisted or not. -/
theorem admits_enumeration (session : PlainSession shapes scope final declarations)
    {values : List EnumValue} {listed : EnumValue} (hlisted : listed ∈ values)
    (h : listed.Denotes value) {core : Ty}
    (hcore : CoreWrittenAs scope final (.enumeration values) core) :
    core.Admits declarations value := by
  cases hcore with
  | @hoisted _ inline hmem hvalues =>
    have hlisted' : ∃ other ∈ inline.values, other.Denotes value := by
      rcases hvalues with heq | hsame
      · exact ⟨listed, heq ▸ hlisted, h⟩
      · obtain ⟨other, hother, hsame⟩ := EnumValue.exists_of_sameList hsame hlisted
        exact ⟨other, hother, h.of_same hsame⟩
    obtain ⟨other, hother, hdenotes⟩ := hlisted'
    exact Ty.Admits.named (session.hoisted inline hmem)
      (admits_enumerationDeclaration hother hdenotes)
  | literals =>
    exact Ty.admits_combine_union (List.mem_map_of_mem hlisted) (Ty.Admits.literal h.literal)

/-- A value that a named shape accepts fits its name, if it fits its declaration. -/
theorem admits_named (session : PlainSession shapes scope final declarations) {name : String}
    {target : Shape} (htarget : ⟨name, target⟩ ∈ shapes)
    (haccepts : target.Accepts scope.root shapes value)
    (h : Sound scope final declarations target value) :
    (Ty.named name).Admits declarations value := by
  obtain ⟨declaration, hmem, rfl, hdeclared⟩ := session.declared _ htarget
  have hnull : value = .null → declaration.kind.isInterface = false := by
    rintro rfl
    exact session.noNull _ htarget haccepts declaration hmem rfl
  exact Ty.Admits.named hmem (h.declaration _ _ hdeclared hnull)

/-! ## Objects -/

/-- In a plain session, a property is written under the name of an entry and with its type. -/
theorem exists_entry_of_mem (session : PlainSession shapes scope final declarations)
    {entries : List (String × Shape)} {required : List String} {properties : List Property}
    (h : List.Forall₂ (PropertyWrittenAs scope final none required) entries properties)
    {property : Property} (hmem : property ∈ properties) :
    ∃ entry ∈ entries, property.name = entry.1 ∧
      property.optional = !required.contains entry.1 ∧
        WrittenAs scope final entry.2 property.type := by
  obtain ⟨entry, hentry, hwritten⟩ := exists_of_forall₂_right h hmem
  cases hwritten with
  | bound hbinding => cases hbinding
  | free _ htype =>
    refine ⟨entry, hentry, ?_, rfl, htype⟩
    rw [session.style]
    rfl

/-- An object fits the properties that its shape is written with, and any index signature of type
`unknown`. -/
theorem bodyAdmits_of_properties (session : PlainSession shapes scope final declarations)
    {entries : List (String × Shape)} {required : List String} {properties : List Property}
    {index : Option Ty} {members : Table Json}
    (hrequired : ∀ name ∈ required, name ∈ members.names)
    (hentries : ∀ entry ∈ entries, ∀ value, members.get? entry.1 = some value →
      Sound scope final declarations entry.2 value)
    (hproperties : List.Forall₂ (PropertyWrittenAs scope final none required) entries properties)
    (hindex : ∀ type, index = some type → type = .primitive .unknown) :
    BodyAdmits declarations properties index (.object members) := by
  constructor
  · intro property hmem hrequires
    obtain ⟨entry, -, hname, hoptional, -⟩ := exists_entry_of_mem session hproperties hmem
    have hcontains : required.contains entry.1 = true := by
      rw [hoptional] at hrequires
      simpa using hrequires
    rw [hname]
    exact hrequired entry.1 (List.contains_iff_mem.mp hcontains)
  · intro property hmem value hvalue
    obtain ⟨entry, hentry, hname, -, htype⟩ := exists_entry_of_mem session hproperties hmem
    rw [hname] at hvalue
    exact (hentries entry hentry value hvalue).admits session htype
  · intro type heq member _
    rw [hindex type heq]
    exact Ty.Admits.unknown member.2

theorem admits_recordWrittenAs (session : PlainSession shapes scope final declarations)
    {properties : List Property} {additional : AdditionalValues} {type : Ty}
    (hbody : ∀ index : Option Ty, (∀ type, index = some type → type = .primitive .unknown) →
      BodyAdmits declarations properties index value)
    (h : RecordWrittenAs scope final properties additional type) :
    type.Admits declarations value := by
  cases h with
  | unspecified => exact Ty.Admits.object (hbody none fun _ heq => nomatch heq)
  | forbidden => exact Ty.Admits.object (hbody none fun _ heq => nomatch heq)
  | unrestricted => exact Ty.Admits.object (hbody _ fun _ heq => (Option.some.inj heq).symm)
  | typed hreport => exact absurd rfl (session.untyped _ hreport)

theorem admits_dictionaryWrittenAs (session : PlainSession shapes scope final declarations)
    {additional : AdditionalValues} {members : Table Json} {type : Ty}
    (hforbidden : additional ≠ .forbidden ∨ members = [])
    (htyped : ∀ values, additional = .typed values → ∀ member ∈ members,
      Sound scope final declarations values member.2)
    (h : DictionaryWrittenAs scope final additional type) :
    type.Admits declarations (.object members) := by
  cases h with
  | unspecified => exact Ty.Admits.record fun _ _ => Ty.Admits.unknown _
  | unrestricted => exact Ty.Admits.record fun _ _ => Ty.Admits.unknown _
  | forbidden =>
    rw [hforbidden.resolve_left fun h => h rfl]
    exact Ty.Admits.record fun _ h => absurd h List.not_mem_nil
  | typed htype =>
    exact Ty.Admits.record fun member hmem => (htyped _ rfl member hmem).admits session htype

theorem openIndex_eq_unknown {additional : AdditionalValues} {type : Ty}
    (h : openIndex additional = some type) : type = .primitive .unknown := by
  cases additional <;> cases h
  rfl

theorem sound_object (session : PlainSession shapes scope final declarations)
    {entries : List (String × Shape)} {required : List String} {additional : AdditionalValues}
    {nullable : Bool} {description : Option String} {members : Table Json}
    (hrequired : ∀ name ∈ required, name ∈ members.names)
    (hentries : ∀ entry ∈ entries, ∀ value, members.get? entry.1 = some value →
      Sound scope final declarations entry.2 value)
    (hforbidden : additional = .forbidden → ∀ member ∈ members, member.1 ∈ entries.map Prod.fst)
    (htyped : ∀ values, additional = .typed values → ∀ member ∈ members,
      member.1 ∉ entries.map Prod.fst → Sound scope final declarations values member.2) :
    Sound scope final declarations ⟨.object entries required additional, nullable, description⟩
      (.object members) := by
  have hbody : ∀ (name : String) properties (index : Option Ty),
      List.Forall₂ (PropertyWrittenAs scope final (scope.bindingOf? name) required) entries
        properties → (∀ type, index = some type → type = .primitive .unknown) →
      BodyAdmits declarations properties index (.object members) := by
    intro name properties index hproperties hindex
    rw [session.bindingOf?_eq] at hproperties
    exact bodyAdmits_of_properties session hrequired hentries hproperties hindex
  have htype : ∀ core, CoreWrittenAs scope final (.object entries required additional) core →
      (core.nullableIf nullable .null).Admits declarations (.object members) := by
    intro core h
    refine Ty.Admits.nullableIf ?_ nullable
    cases h with
    | dictionary hdictionary =>
      refine admits_dictionaryWrittenAs session ?_
        (fun values heq member hmem => htyped values heq member hmem List.not_mem_nil) hdictionary
      rw [or_iff_not_imp_left, not_not]
      exact fun heq => List.eq_nil_iff_forall_not_mem.mpr fun member hmem =>
        absurd (hforbidden heq member hmem) List.not_mem_nil
    | object _ hproperties hrecord =>
      exact admits_recordWrittenAs session
        (fun _ => bodyAdmits_of_properties session hrequired hentries hproperties) hrecord
  refine ⟨htype, ?_, ?_, ?_⟩
  · intro name type h
    cases h with
    | own _ hproperties hrecord =>
      rw [session.bottom]
      refine Ty.Admits.nullableIf ?_ nullable
      exact admits_recordWrittenAs session (fun index => hbody name _ index hproperties) hrecord
    | other _ hwritten => exact admits_of_writtenAs session htype hwritten
  · intro _ _ _ _ properties index heq hproperties hindex
    cases heq
    exact bodyAdmits_of_properties session hrequired hentries hproperties hindex
  · intro name kind h _
    cases h with
    | interface _ _ hproperties =>
      exact DeclarationKind.Admits.interface (fun _ hmem => absurd hmem List.not_mem_nil)
        (hbody name _ _ hproperties fun _ => openIndex_eq_unknown)
    | record _ _ hproperties hrecord =>
      rw [session.bottom]
      refine DeclarationKind.Admits.aliased (Ty.Admits.nullableIf ?_ nullable)
      exact admits_recordWrittenAs session (fun index => hbody name _ index hproperties) hrecord
    | plain _ hwritten =>
      exact DeclarationKind.Admits.aliased (admits_of_writtenAs session htype hwritten)

/-! ## Compositions -/

/-- A pointer of a composition is that of one of its members. -/
theorem exists_member_of_mem_pointers {members : List Shape} {pointer : String}
    (h : pointer ∈ pointers members) : ∃ member ∈ members, member.kind = .reference pointer := by
  obtain ⟨member, hmember, hpointer⟩ := List.mem_filterMap.mp h
  refine ⟨member, hmember, ?_⟩
  cases hkind : member.kind with
  | reference other =>
    rw [hkind] at hpointer
    rw [Option.some.inj hpointer]
  | _ =>
    rw [hkind] at hpointer
    cases hpointer

/-- A value other than null fits the body of an interface, if it fits the member that the body is
written from. -/
theorem bodyAdmits_of_bodyWrittenAs (session : PlainSession shapes scope final declarations)
    {name : String} {extra : Option Shape} {body : InterfaceBody}
    (hvalue : value ≠ .null)
    (hextra : ∀ shape, extra = some shape → Sound scope final declarations shape value)
    (h : BodyWrittenAs scope final name extra body) :
    BodyAdmits declarations
      (withBoundProperty scope.settings.propertyNameStyle (scope.bindingOf? name) body)
      body.index value := by
  rw [session.bindingOf?_eq]
  cases h with
  | none => exact BodyAdmits.empty hvalue
  | unknown => exact BodyAdmits.empty hvalue
  | object _ hproperties =>
    rw [session.bindingOf?_eq] at hproperties
    exact (hextra _ rfl).body rfl _ _ _ _ _ rfl hproperties fun _ => openIndex_eq_unknown

/-- A value other than null fits an interface with one base and one body, if it fits the members
that these are written from. -/
theorem admits_extension (session : PlainSession shapes scope final declarations) {name : String}
    {members : List Shape} {pointer base : String} {extra : Option Shape} {body : InterfaceBody}
    (hpointers : pointers members = [pointer])
    (hextra : (members.filter fun member => !member.isReference) = extra.toList)
    (hbase : Pointer.shapeName scope.root pointer = .ok base)
    (hbody : BodyWrittenAs scope final name extra body) (hvalue : value ≠ .null)
    (hmembers : ∀ member ∈ members, Sound scope final declarations member value) :
    (DeclarationKind.interface [base]
      (withBoundProperty scope.settings.propertyNameStyle (scope.bindingOf? name) body)
      body.index).Admits declarations value := by
  have hreference : (Ty.named base).Admits declarations value := by
    obtain ⟨member, hmember, hkind⟩ :=
      exists_member_of_mem_pointers (hpointers ▸ List.mem_singleton_self pointer)
    have htype := (hmembers member hmember).type (.named base)
    rw [hkind] at htype
    exact Ty.Admits.of_named_nullableIf (htype (CoreWrittenAs.reference hbase)) hvalue
  have hothers : ∀ shape, extra = some shape → Sound scope final declarations shape value := by
    intro shape heq
    have hmem : shape ∈ members.filter fun member => !member.isReference := by
      rw [hextra, heq]
      exact List.mem_singleton_self shape
    exact hmembers shape (List.mem_of_mem_filter hmem)
  refine DeclarationKind.Admits.interface ?_
    (bodyAdmits_of_bodyWrittenAs session hvalue hothers hbody)
  intro other hmem
  rw [List.mem_singleton.mp hmem]
  exact hreference

theorem sound_allOf (session : PlainSession shapes scope final declarations)
    {members : List Shape} {discriminator : Option Discriminator} {nullable : Bool}
    {description : Option String} (hne : members ≠ [])
    (hmembers : ∀ member ∈ members, Sound scope final declarations member value) :
    Sound scope final declarations
      ⟨.composition .allOf members discriminator, nullable, description⟩ value := by
  refine sound_of_type session rfl ?_ ?_
  · intro core h
    cases h with
    | @composition _ _ _ types htypes =>
      have hadmits : ∀ type ∈ types, type.Admits declarations value := by
        intro type hmem
        obtain ⟨member, hmember, htype⟩ := exists_of_forall₂_right htypes hmem
        exact (hmembers member hmember).admits session htype
      refine Ty.admits_combine_intersection ?_ hadmits
      rintro rfl
      exact hne (List.forall₂_nil_right_iff.mp htypes)
  · intro _ name kind h hnull
    cases h with
    | extension hpointers hextra hbase _ _ hbody =>
      have hvalue : value ≠ .null := by
        intro heq
        cases hnull heq
      exact admits_extension session hpointers hextra hbase hbody hvalue hmembers
    | @intersection _ _ _ _ types htypes =>
      have hadmits : ∀ type ∈ types, type.Admits declarations value := by
        intro type hmem
        obtain ⟨member, hmember, htype⟩ := exists_of_forall₂_right htypes hmem
        exact (hmembers member hmember).member name type htype
      rw [session.bottom]
      exact DeclarationKind.Admits.aliased ((Ty.admits_intersect hadmits).nullableIf nullable)
    | plain hplain _ => cases hplain

/-- One member that a value fits is enough for a union. -/
theorem sound_union (session : PlainSession shapes scope final declarations)
    {kind : CompositionKind} (hkind : kind ≠ .allOf) {members : List Shape}
    {discriminator : Option Discriminator} {nullable : Bool} {description : Option String}
    {member : Shape} (hmember : member ∈ members)
    (h : Sound scope final declarations member value) :
    Sound scope final declarations
      ⟨.composition kind members discriminator, nullable, description⟩ value := by
  refine sound_of_type session rfl ?_ ?_
  · intro core hcore
    cases hcore with
    | composition htypes =>
      obtain ⟨type, hmem, htype⟩ := exists_of_forall₂_left htypes hmember
      rw [if_neg hkind]
      exact Ty.admits_combine_union hmem (h.admits session htype)
  · intro hplain
    cases kind with
    | allOf => exact absurd rfl hkind
    | oneOf => cases hplain
    | anyOf => cases hplain

/-! ## All shapes -/

/-- A shape that accepts null is declared as an interface only if it is a composition, a reference
in which accepts null. -/
theorem exists_base_of_isInterface {name : String} {kind : DeclarationKind}
    (h : DeclaredAs scope final name shape kind) (hkind : kind.isInterface = true)
    (hnull : shape.Accepts scope.root shapes .null) :
    ∃ members discriminator, shape.kind = .composition .allOf members discriminator ∧
      ∃ member ∈ members, member.isReference = true ∧ member.Accepts scope.root shapes .null := by
  cases h with
  | interface => cases hnull
  | @extension members discriminator _ pointer _ _ _ _ hpointers =>
    obtain ⟨member, hmember, hreference⟩ :=
      exists_member_of_mem_pointers (hpointers ▸ List.mem_singleton_self pointer)
    refine ⟨members, discriminator, rfl, member, hmember, ?_, ?_⟩
    · rw [isReference, hreference]
    · cases hnull with
      | allOf hmembers => exact hmembers member hmember
  | _ => cases hkind

/-- **Whatever a shape accepts fits everything that the shape is written as.** -/
theorem sound_of_accepts (session : PlainSession shapes scope final declarations)
    (h : shape.Accepts scope.root shapes value) :
    shape.hasNoEmptyAllOf = true → Sound scope final declarations shape value := by
  induction h with
  | null => exact fun _ => sound_null session
  | @primitive type format nullable description value hholds =>
    intro _
    refine sound_of_plain session rfl rfl ?_
    intro core hcore
    cases hcore
    exact admits_primitive session hholds format
  | array _ ih =>
    intro hne
    refine sound_of_plain session rfl rfl ?_
    intro core hcore
    cases hcore with
    | array hitem =>
      exact Ty.Admits.array fun value hmem => (ih value hmem hne).admits session hitem
  | object hrequired _ hforbidden _ ihproperties ihtyped =>
    intro hne
    obtain ⟨hentries, hvalues⟩ := hasNoEmptyAllOf_of_object hne
    exact sound_object session hrequired
      (fun entry hentry value hvalue =>
        ihproperties entry hentry value hvalue (hentries entry hentry)) hforbidden
      fun values heq member hmem hother =>
        ihtyped values heq member hmem hother (hvalues values heq)
  | reference hname htarget haccepts ih =>
    intro _
    refine sound_of_plain session rfl rfl ?_
    intro core hcore
    cases hcore with
    | reference hname' =>
      obtain rfl := Except.ok.inj (hname.symm.trans hname')
      exact admits_named session htarget haccepts (ih (session.nonempty _ htarget))
  | enumeration hlisted hdenotes =>
    intro _
    refine sound_of_type session rfl (fun core => admits_enumeration session hlisted hdenotes) ?_
    intro _ name kind h _
    cases h with
    | enumeration => exact admits_enumerationDeclaration hlisted hdenotes
    | plain hplain _ => cases hplain
  | constant hdenotes =>
    intro _
    refine sound_of_plain session rfl rfl ?_
    intro core hcore
    cases hcore
    exact Ty.Admits.literal hdenotes.literal
  | allOf _ ih =>
    intro hne
    obtain ⟨hnil, hmembers⟩ := hasNoEmptyAllOf_of_composition hne
    exact sound_allOf session (hnil rfl) fun member hmember =>
      ih member hmember (hmembers member hmember)
  | oneOf hmember _ ih =>
    intro hne
    exact sound_union session (by decide) hmember
      (ih ((hasNoEmptyAllOf_of_composition hne).2 _ hmember))
  | anyOf hmember _ ih =>
    intro hne
    exact sound_union session (by decide) hmember
      (ih ((hasNoEmptyAllOf_of_composition hne).2 _ hmember))
  | unknown value =>
    intro _
    refine sound_of_plain session rfl rfl ?_
    intro core hcore
    cases hcore
    exact Ty.Admits.unknown value
  | unclassified value =>
    intro _
    refine sound_of_plain session rfl rfl ?_
    intro core hcore
    cases hcore
    exact Ty.Admits.unknown value

end Sound

end Shape

/-! ## A whole generation -/

/-- Null belongs to no interface. -/
theorem TypeScript.DeclarationKind.not_admits_null {declarations : List Declaration}
    {kind : DeclarationKind} (h : kind.isInterface = true) : ¬ kind.Admits declarations .null := by
  intro hnull
  cases hnull with
  | interface _ hbody =>
    cases hbody with
    | empty hvalue => exact hvalue rfl
  | _ => cases h

namespace Output

variable {format : Notation} {text : String} {document : Document} {settings : Settings}
  {output : Output}

/-- No shape that accepts null is declared as an interface. -/
def Run.NoInterfaceForNull (run : Run document settings output) : Prop :=
  ∀ named ∈ document.namedShapes,
    named.shape.Accepts document.root document.namedShapes .null →
    ∀ declaration ∈ run.declarations, declaration.name = named.name →
      declaration.kind.isInterface = false

/-- The declaration of a shape is the only one of its name. -/
theorem Run.declaredAs (run : Run document settings output) (hdocument : document.WasRead)
    {named : NamedShape} (hnamed : named ∈ document.namedShapes) {declaration : Declaration}
    (hmem : declaration ∈ run.declarations) (hname : declaration.name = named.name) :
    Shape.DeclaredAs run.scope run.finished named.name named.shape declaration.kind := by
  obtain ⟨other, hother, heq, hdeclared⟩ := run.exists_declaration hnamed
  have hsame := run.eq_of_name_eq hdocument hmem hother (hname.trans heq.symm)
  rw [hsame]
  exact hdeclared

/-- A shape that accepts null is no interface if its name admits null. -/
theorem Run.noInterfaceForNull_of_admits (run : Run document settings output)
    (hdocument : document.WasRead)
    (h : ∀ named ∈ document.namedShapes,
      named.shape.Accepts document.root document.namedShapes .null →
        (Ty.named named.name).Admits run.declarations .null) : run.NoInterfaceForNull := by
  intro named hnamed hnull declaration hmem hname
  obtain ⟨other, hother, heq, hadmits⟩ := (h named hnamed hnull).exists_declaration
  have hsame := run.eq_of_name_eq hdocument hmem hother (hname.trans heq.symm)
  rw [← hsame] at hadmits
  by_contra hinterface
  exact DeclarationKind.not_admits_null (eq_true_of_ne_false hinterface) hadmits

/-- References that do not accept null keep their compositions from accepting it. -/
theorem Run.noInterfaceForNull (run : Run document settings output)
    (hdocument : document.WasRead)
    (h : ∀ named ∈ document.namedShapes, ∀ members discriminator,
      named.shape.kind = .composition .allOf members discriminator → ∀ member ∈ members,
        member.isReference = true →
          ¬ member.Accepts document.root document.namedShapes .null) : run.NoInterfaceForNull := by
  intro named hnamed hnull declaration hmem hname
  by_contra hinterface
  rw [← run.root_eq] at hnull
  obtain ⟨members, discriminator, hkind, member, hmember, hreference, haccepts⟩ :=
    Shape.exists_base_of_isInterface (run.declaredAs hdocument hnamed hmem hname)
      (eq_true_of_ne_false hinterface) hnull
  rw [run.root_eq] at haccepts
  exact h named hnamed members discriminator hkind member hmember hreference haccepts

theorem Run.plainSession (run : Run document settings output)
    (hstyle : settings.propertyNameStyle = .unchanged) (hbottom : settings.nullableType = .null)
    (hdates : settings.dateType = .string)
    (hunions : ∀ named ∈ document.namedShapes, named.shape.isDiscriminated = false)
    (htyped : ∀ diagnostic ∈ output.diagnostics, diagnostic.kind ≠ .typedAdditionalProperties)
    (hallOf : ∀ named ∈ document.namedShapes, named.shape.hasNoEmptyAllOf = true)
    (hnull : run.NoInterfaceForNull) :
    Shape.PlainSession document.namedShapes run.scope run.finished run.declarations where
  style := by rw [run.settings_eq, hstyle]
  bottom := by rw [run.settings_eq, hbottom]
  dates := by rw [run.settings_eq, hdates]
  unbound := Except.ok.inj (run.bindings_eq.symm.trans (Binding.claimShapes_eq hunions))
  untyped := run.diagnostics_eq ▸ htyped
  nonempty := hallOf
  declared _ hnamed := run.exists_declaration hnamed
  hoisted inline hinline := by
    rw [run.settings_eq]
    exact run.declared_mem_declarations hinline
  noNull := by
    rw [run.root_eq]
    exact hnull

/-- **The generated types are sound, null in interfaces aside.**  Without discriminated unions,
without typed values besides declared properties and without empty lists of shapes that hold all
at once, the declaration of every named shape admits every value that the shape accepts exactly
when no shape that accepts null is declared as an interface.  In that case the same holds of every
type that a shape is written as, in declarations and in signatures.  It is the case when no
reference in a named composition accepts null. -/
theorem generate_sound (hread : Document.readAs format text = .ok document)
    (h : generate document settings = .ok output)
    (hstyle : settings.propertyNameStyle = .unchanged) (hbottom : settings.nullableType = .null)
    (hdates : settings.dateType = .string)
    (hunions : ∀ named ∈ document.namedShapes, named.shape.isDiscriminated = false)
    (htyped : ∀ diagnostic ∈ output.diagnostics, diagnostic.kind ≠ .typedAdditionalProperties)
    (hallOf : ∀ named ∈ document.namedShapes, named.shape.hasNoEmptyAllOf = true) :
    ∃ run : Run document settings output,
      output.files.get? typesFile = some { types := run.declarations : Module }.text ∧
      ((∀ named ∈ document.namedShapes, ∀ value,
          named.shape.Accepts document.root document.namedShapes value →
            (Ty.named named.name).Admits run.declarations value) ↔ run.NoInterfaceForNull) ∧
      (run.NoInterfaceForNull → ∀ (shape : Shape) (type : Ty),
        shape.WrittenAs run.scope run.finished type → shape.hasNoEmptyAllOf = true →
          ∀ value, shape.Accepts document.root document.namedShapes value →
            type.Admits run.declarations value) ∧
      ((∀ named ∈ document.namedShapes, ∀ members discriminator,
          named.shape.kind = .composition .allOf members discriminator → ∀ member ∈ members,
            member.isReference = true →
              ¬ member.Accepts document.root document.namedShapes .null) →
        run.NoInterfaceForNull) := by
  obtain ⟨run⟩ := exists_run h
  have hdocument := Document.wasRead_of_readAs hread
  have hsession := run.plainSession hstyle hbottom hdates hunions htyped hallOf
  refine ⟨run, run.get?_typesFile, ⟨?_, ?_⟩, ?_, run.noInterfaceForNull hdocument⟩
  · intro hadmits
    exact run.noInterfaceForNull_of_admits hdocument fun named hnamed => hadmits named hnamed .null
  · intro hnull named hnamed value haccepts
    rw [← run.root_eq] at haccepts
    have hsound := Shape.sound_of_accepts (hsession hnull) haccepts (hallOf named hnamed)
    exact Shape.admits_named (hsession hnull) hnamed haccepts hsound
  · intro hnull shape type htype hnonempty value haccepts
    rw [← run.root_eq] at haccepts
    have hsound := Shape.sound_of_accepts (hsession hnull) haccepts hnonempty
    exact hsound.admits (hsession hnull) htype

/-- A document with an object, an enumeration inside it, and a composition with a base. -/
def derivedPet : String :=
  String.intercalate "\n"
    ["openapi: 3.0.0",
      "paths:",
      " /pets:",
      "  parameters: []",
      "components:",
      " schemas:",
      "  Cat:",
      "   allOf:",
      "   - $ref: '#/components/schemas/Pet'",
      "  Pet:",
      "   required: [kind]",
      "   properties:",
      "    kind:",
      "     enum: [cat]"]

/-- Is the member a reference that leads to an object, with null admitted by neither? -/
def refersToObject (document : Document) (member : Shape) : Bool :=
  !member.nullable && match member.kind with
    | .reference pointer =>
      match Pointer.shapeName document.root pointer with
      | .ok name => document.namedShapes.all fun named => named.name != name ||
        (!named.shape.nullable && match named.shape.kind with
          | .object _ _ _ => true
          | _ => false)
      | .error _ => false
    | _ => false

theorem not_accepts_null_of_refersToObject {member : Shape}
    (h : refersToObject document member = true) :
    ¬ member.Accepts document.root document.namedShapes .null := by
  intro haccepts
  obtain ⟨hnullable, hkind⟩ := Bool.and_eq_true_iff.mp h
  cases haccepts with
  | null => cases hnullable
  | reference hname htarget haccepts =>
    simp only [hname] at hkind
    have htarget := List.all_eq_true.mp hkind _ htarget
    simp only [bne_self_eq_false, Bool.false_or, Bool.and_eq_true] at htarget
    obtain ⟨hnullable, hobject⟩ := htarget
    cases haccepts with
    | null => cases hnullable
    | _ => cases hobject
  | _ => cases hkind

/-- Is every member of a composition of shapes that hold all at once such a reference? -/
def extendsObjects (document : Document) (named : NamedShape) : Bool :=
  match named.shape.kind with
  | .composition .allOf members _ => members.all (refersToObject document)
  | _ => true

theorem generate_sound_derivedPet :
    ∃ document output, Document.readAs .yaml derivedPet = .ok document ∧
      generate document {} = .ok output ∧
      (∀ named ∈ document.namedShapes, named.shape.isDiscriminated = false) ∧
      (∀ diagnostic ∈ output.diagnostics, diagnostic.kind ≠ .typedAdditionalProperties) ∧
      (∀ named ∈ document.namedShapes, named.shape.hasNoEmptyAllOf = true) ∧
      ∃ run : Run document {} output,
        ((∀ named ∈ document.namedShapes, ∀ value,
          named.shape.Accepts document.root document.namedShapes value →
            (Ty.named named.name).Admits run.declarations value) ↔ run.NoInterfaceForNull) ∧
        run.NoInterfaceForNull ∧
        ∀ named ∈ document.namedShapes, ∀ value,
          named.shape.Accepts document.root document.namedShapes value →
            (Ty.named named.name).Admits run.declarations value := by
  have hyields : yields .yaml derivedPet {} (fun document output =>
      document.namedShapes.all (fun named => !named.shape.isDiscriminated) &&
        output.diagnostics.all (fun diagnostic =>
          decide (diagnostic.kind ≠ .typedAdditionalProperties)) &&
        document.namedShapes.all (fun named => named.shape.hasNoEmptyAllOf) &&
        document.namedShapes.all (extendsObjects document)) = true := by
    decide +kernel
  obtain ⟨document, output, hread, h, hcheck⟩ := exists_of_yields hyields
  simp only [Bool.and_eq_true, List.all_eq_true, Bool.not_eq_true', decide_eq_true_eq] at hcheck
  obtain ⟨⟨⟨hunions, htyped⟩, hallOf⟩, hmembers⟩ := hcheck
  obtain ⟨run, -, hsound, -, hreferences⟩ :=
    generate_sound hread h rfl rfl rfl hunions htyped hallOf
  have hnull : run.NoInterfaceForNull := by
    refine hreferences fun named hnamed members discriminator hkind member hmem _ => ?_
    have hall := hmembers named hnamed
    simp only [extendsObjects, hkind, List.all_eq_true] at hall
    exact not_accepts_null_of_refersToObject (hall member hmem)
  exact ⟨document, output, hread, h, hunions, htyped, hallOf, run, hsound, hnull, hsound.mpr hnull⟩

end Output

end ApiScribe
