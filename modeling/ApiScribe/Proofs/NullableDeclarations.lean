import ApiScribe.Proofs.Bottoms
import ApiScribe.Proofs.Values

/-!
# Where the bottom of a declaration stands

An interface and a native enumeration cannot admit null.  A nullable shape must therefore be declared in
another way, and the bottom of the settings must reach the type that is declared.  In an alias it is the
type or a member of the union; in an enumeration it is the last alternative of the type that goes by the
name (`enumerationText_eq`), in the two styles that write such a type.

`declaration_nullable` says that no route loses the flag, and that where it is not set an enumeration has
the values that it lists, and an object with properties is never null.
-/

namespace ApiScribe

open TypeScript

/-- The value that the bottom of nullable types is; `none` is `undefined`. -/
def NullableType.value : NullableType → Option Json
  | .null => some .null
  | .undefined => none

namespace TypeScript

variable {name : String} {style : EnumStyle} {members : List EnumMember} {declarations : List Declaration}

theorem Ty.has_bottom (style : NullableType) :
    (Ty.primitive style.bottom).Has declarations style.value :=
  (Ty.has_bottom_iff style).mpr (by cases style <;> rfl)

/-! ## The text of an enumeration -/

/-- The alternatives that the type of an enumeration has without a bottom: the values of the object, or
the values one by one.  A native enumeration writes no type. -/
def writtenAlternatives (name : String) (members : List EnumMember) : EnumStyle → List String
  | .constObject => ["(typeof " ++ name ++ ")[keyof typeof " ++ name ++ "]"]
  | .union => members.map fun member => member.value.text
  | .native => []

/-- A union of alternatives. -/
def unionText (alternatives : List String) : String :=
  if alternatives.isEmpty then "never" else String.intercalate " | " alternatives

theorem unionText_singleton (only : String) : unionText [only] = only := by
  rw [unionText, List.isEmpty_cons, if_neg Bool.false_ne_true, String.intercalate_singleton]

theorem unionText_pair (first second : String) :
    unionText [first, second] = first ++ " | " ++ second := by
  rw [unionText, List.isEmpty_cons, if_neg Bool.false_ne_true, String.intercalate_cons_cons,
    String.intercalate_singleton]

/-- What an enumeration declares in front of its type: the object that the type is derived from. -/
def writtenObject (name : String) (members : List EnumMember) : EnumStyle → String
  | .constObject =>
    "export const " ++ name ++ " = \x7b\n" ++ String.join (members.map (EnumMember.line ": ")) ++
      "\x7d as const;\n\n"
  | _ => ""

/-- **The type of an enumeration** stands at the end of its text, and the bottom at the end of the
type. -/
theorem enumerationText_eq (hstyle : style ≠ .native) (bottom : Option Primitive) :
    enumerationText name style members bottom =
      writtenObject name members style ++ "export type " ++ name ++ " = " ++
        unionText (writtenAlternatives name members style ++ (bottom.map Primitive.text).toList) ++
        ";\n" := by
  cases style with
  | constObject =>
    have htypeof : " = (typeof " = " = " ++ "(typeof " := by decide
    unfold enumerationText writtenObject writtenAlternatives
    cases bottom with
    | none =>
      dsimp only
      rw [Option.map_none, Option.toList_none, List.append_nil, unionText_singleton, htypeof]
      simp only [String.append_assoc, String.empty_append]
    | some primitive =>
      dsimp only
      rw [Option.map_some, Option.toList_some, List.singleton_append, unionText_pair, htypeof]
      simp only [String.append_assoc]
  | union =>
    unfold enumerationText writtenObject writtenAlternatives unionText
    rw [String.empty_append]
    cases bottom <;> rfl
  | native => exact absurd rfl hstyle

/-- A declaration has the bottom in the type of its name: as the type, as a member of the union that the
type is, or as the last alternative behind the values of an enumeration. -/
inductive Declaration.EndsInBottom (bottom : Primitive) : Declaration → Prop
  | alone {name : String} {description : Option String} :
    EndsInBottom bottom ⟨name, description, .alias (.primitive bottom)⟩
  | member {name : String} {description : Option String} {members : List Ty}
    (hmem : .primitive bottom ∈ members) :
    EndsInBottom bottom ⟨name, description, .alias (.union members)⟩
  | enumeration {name : String} {description : Option String} {style : EnumStyle}
    {members : List EnumMember} (hstyle : style ≠ .native)
    (htext : (⟨name, description, .enumeration style members (some bottom)⟩ : Declaration).text =
      comment "" description ++ writtenObject name members style ++ "export type " ++ name ++ " = " ++
        unionText (writtenAlternatives name members style ++ [bottom.text]) ++ ";\n") :
    EndsInBottom bottom ⟨name, description, .enumeration style members (some bottom)⟩

theorem Declaration.EndsInBottom.isInterface_eq {bottom : Primitive} {declared : Declaration}
    (h : declared.EndsInBottom bottom) : declared.kind.isInterface = false := by
  cases h <;> rfl

/-- What has the bottom in its type admits it. -/
theorem Declaration.EndsInBottom.has {style : NullableType} {declared : Declaration}
    (h : declared.EndsInBottom style.bottom) : declared.kind.Has declarations style.value := by
  cases h with
  | alone => exact DeclarationKind.has_alias_iff.mpr (Ty.has_bottom style)
  | member hmem =>
    exact DeclarationKind.has_alias_iff.mpr (Ty.has_union_iff.mpr ⟨_, hmem, Ty.has_bottom style⟩)
  | enumeration =>
    exact DeclarationKind.has_enumeration_iff.mpr (Or.inr ⟨_, rfl, Ty.has_bottom style⟩)

theorem Declaration.endsInBottom_alias (name : String) (description : Option String)
    {nullable : Bool} (hnullable : nullable = true) (style : NullableType) (type : Ty) :
    EndsInBottom style.bottom ⟨name, description, .alias (type.nullableIf nullable style)⟩ := by
  rw [Ty.nullableIf, if_pos hnullable]
  rcases Ty.withBottom_eq_or style.bottom type with halone | ⟨members, hunion, hmem⟩
  · rw [halone]
    exact .alone
  · rw [hunion]
    exact .member hmem

theorem Declaration.endsInBottom_enumeration (name : String) (description : Option String)
    (bottom : Primitive) (members : List EnumMember) (hstyle : style ≠ .native) :
    EndsInBottom bottom ⟨name, description, .enumeration style members (some bottom)⟩ := by
  refine .enumeration hstyle ?_
  rw [Declaration.text]
  dsimp only
  rw [enumerationText_eq hstyle, Option.map_some, Option.toList_some]
  simp only [String.append_assoc]

end TypeScript

namespace Shape

variable {scope : Scope} {before after final : Progress} {name : String} {shape : Shape}
  {declarations : List Declaration}

/-- The shape describes objects with properties. -/
def HasProperties (shape : Shape) : Prop :=
  ∃ entries required additional, shape.kind = .object entries required additional ∧ entries ≠ []

/-- Properties leave no room for null, nor for `undefined`. -/
theorem value_ne_of_bodyAdmits {properties : List Property} {index : Option Ty} {json : Json}
    (h : BodyAdmits declarations properties index json) (style : NullableType) :
    style.value ≠ some json := by
  cases style with
  | null => exact fun hnull => h.ne_null (Option.some.inj hnull).symm
  | undefined => exact nofun

theorem not_has_value_of_object {properties : List Property} {index : Option Ty}
    (style : NullableType) : ¬ (Ty.object properties index).Has declarations style.value := by
  rw [Ty.has_object_iff]
  rintro ⟨json, hvalue, hbody⟩
  exact value_ne_of_bodyAdmits hbody style hvalue

theorem not_has_value_of_recordWrittenAs {properties : List Property}
    {additional : AdditionalValues} {type : Ty} (h : RecordWrittenAs scope final properties additional type)
    (style : NullableType) : ¬ type.Has declarations style.value := by
  cases h with
  | typed =>
    intro hhas
    exact not_has_value_of_object style (Ty.has_intersection_iff.mp hhas _ List.mem_cons_self)
  | _ => exact not_has_value_of_object style

/-- A nullable shape takes none of the routes that leave no room for the bottom. -/
theorem DeclaredAs.endsInBottom {kind : DeclarationKind} (h : DeclaredAs scope final name shape kind)
    (hnullable : shape.nullable = true) :
    Declaration.EndsInBottom scope.settings.nullableType.bottom ⟨name, shape.description, kind⟩ := by
  cases h with
  | enumeration values nullable description =>
    obtain rfl : nullable = true := hnullable
    refine Declaration.endsInBottom_enumeration name description _ _ ?_
    -- a native enumeration is one of the two reasons for the fallback
    split
    next => exact nofun
    next hstyle =>
      intro hnative
      exact hstyle (by rw [hnative, Bool.true_or]; rfl)
  | interface | extension => cases hnullable
  | record | intersection => exact Declaration.endsInBottom_alias _ _ hnullable _ _
  | plain _ htype =>
    obtain ⟨core, -, rfl⟩ := htype.cases
    exact Declaration.endsInBottom_alias _ _ hnullable _ _

theorem DeclaredAs.eq_enumerationDeclaration {values : List EnumValue} {nullable : Bool}
    {description : Option String} {kind : DeclarationKind}
    (h : DeclaredAs scope final name ⟨.enumeration values, nullable, description⟩ kind) :
    kind = enumerationDeclaration scope.settings values nullable := by
  cases h with
  | enumeration => rfl
  | plain hplain => cases hplain

/-- An object with properties that is not nullable is an interface, or an intersection that an object
is a part of. -/
theorem DeclaredAs.not_has_value {kind : DeclarationKind}
    (h : DeclaredAs scope final name shape kind) (hnullable : shape.nullable = false)
    (hproperties : shape.HasProperties) (style : NullableType) :
    ¬ kind.Has declarations style.value := by
  obtain ⟨entries, required, additional, hkind, hne⟩ := hproperties
  cases h with
  | enumeration | extension | intersection => cases hkind
  | interface =>
    rw [DeclarationKind.has_interface_iff]
    rintro ⟨json, hvalue, -, hbody⟩
    exact value_ne_of_bodyAdmits hbody style hvalue
  | @record _ _ _ nullable _ _ type _ _ _ htype =>
    obtain rfl : nullable = false := hnullable
    rw [Ty.nullableIf, if_neg Bool.false_ne_true, DeclarationKind.has_alias_iff]
    exact not_has_value_of_recordWrittenAs htype style
  | plain hplain =>
    rw [hkind] at hplain
    exact absurd (List.isEmpty_iff.mp hplain) hne

/-- **No route loses null.**  A nullable shape is declared with the bottom in the type of its name.  Where
the flag is not set, an enumeration has the values that it lists, and an object with properties has
neither null nor `undefined`. -/
theorem declaration_nullable {declared : Declaration}
    (h : declaration name shape scope before = (.ok declared, after)) :
    (shape.nullable = true →
      declared.kind.isInterface = false ∧
        declared.EndsInBottom scope.settings.nullableType.bottom ∧
        ∀ declarations, declared.kind.Has declarations scope.settings.nullableType.value) ∧
    (shape.nullable = false →
      (∀ values, shape.kind = .enumeration values →
        (∃ style, declared.kind = .enumeration style (EnumValue.members values) none) ∧
          ∀ declarations value, declared.kind.Has declarations value ↔
            ∃ listed ∈ values, (Ty.literal listed.literal).Has declarations value) ∧
      (shape.HasProperties →
        ∀ declarations (style : NullableType), ¬ declared.kind.Has declarations style.value)) := by
  obtain ⟨hname, hdescription, hdeclared⟩ := declaredAs_of_declaration (le_refl after) h
  refine ⟨fun hnullable => ?_, fun hnullable => ⟨fun values hkind => ?_, fun hproperties => ?_⟩⟩
  · have hends : declared.EndsInBottom scope.settings.nullableType.bottom := by
      obtain ⟨declaredName, description, kind⟩ := declared
      obtain rfl : declaredName = name := hname
      obtain rfl : description = shape.description := hdescription
      exact hdeclared.endsInBottom hnullable
    exact ⟨hends.isInterface_eq, hends, fun declarations => hends.has⟩
  · obtain ⟨core, nullable, description⟩ := shape
    obtain rfl : core = .enumeration values := hkind
    obtain rfl : nullable = false := hnullable
    rw [hdeclared.eq_enumerationDeclaration]
    refine ⟨⟨_, rfl⟩, fun declarations value => ?_⟩
    rw [DeclarationKind.has_enumerationDeclaration_iff]
    simp only [Bool.false_eq_true, false_and, or_false]
  · exact fun declarations style => hdeclared.not_has_value hnullable hproperties style

/-- The scope of an empty document whose enumerations are native and whose bottom is `undefined`. -/
def nativeScope : Scope :=
  { emptyScope with settings := { enumStyle := .native, nullableType := .undefined } }

theorem declaration_nullable_species :
    ∃ declared after,
      declaration "Species" ⟨.enumeration [.string "cat", .string "dog"], true, none⟩ nativeScope {} =
          (.ok declared, after) ∧
        declared.EndsInBottom .undefined ∧ declared.kind.Has [declared] none := by
  have hrun : ∃ declared after,
      declaration "Species" ⟨.enumeration [.string "cat", .string "dog"], true, none⟩ nativeScope {} =
        (.ok declared, after) := ⟨_, _, rfl⟩
  obtain ⟨declared, after, h⟩ := hrun
  obtain ⟨-, hends, hhas⟩ := (declaration_nullable h).1 rfl
  exact ⟨declared, after, h, hends, hhas [declared]⟩

end Shape

end ApiScribe
