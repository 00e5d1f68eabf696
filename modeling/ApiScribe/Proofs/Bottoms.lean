import ApiScribe.Proofs.TypeOfShape
import ApiScribe.Schema.OfJson
import ApiScribe.Shape.OfSchema
import Mathlib.Algebra.GroupWithZero.Nat

/-!
# How often a type has the bottom

A nullable shape is written as a union with the bottom, which `Ty.withBottom` adds "once": unless it
is there.  It looks at the members of the union and no deeper.  What a reader sees is the flat union,
`Ty.alternatives`, and a member that is nullable itself is a union with a bottom of its own.

`BottomUse` is what has to be known of a type for that: whether it is the bottom, whether it has the
bottom among its members, and how often it has it in all.  The three are computed from the shape
(`Shape.bottomUse`), case by case as the type is, and `type_bottoms` says that the computation is
right and which nullable shapes are written with one bottom.  `exists_second_bottom` is one that is
not.
-/

namespace ApiScribe

open TypeScript

/-! ## Flat unions -/

namespace TypeScript.Ty

mutual

/-- The alternatives that a type leaves: the members of a union, those of the unions among them, and
so on. -/
def alternatives : Ty → List Ty
  | .union members => alternativesOfList members
  | type => [type]

/-- The alternatives that types leave together. -/
def alternativesOfList : List Ty → List Ty
  | [] => []
  | type :: rest => type.alternatives ++ alternativesOfList rest

end

/-- How often the bottom is among the alternatives. -/
def bottoms (bottom : Primitive) (type : Ty) : Nat :=
  type.alternatives.countP (isPrimitive bottom)

/-- Is the bottom among the members of the union that the type is? -/
def lists (bottom : Primitive) : Ty → Bool
  | .union members => members.any (isPrimitive bottom)
  | _ => false

end TypeScript.Ty

/-! ## What is known of the bottom -/

/-- What a type has to do with the bottom. -/
structure BottomUse where
  /-- The type is the bottom. -/
  isAlone : Bool
  /-- The type is a union and the bottom is one of its members. -/
  isListed : Bool
  /-- So often the bottom is among the alternatives. -/
  count : Nat
deriving DecidableEq, Repr

namespace BottomUse

/-- A type that has nothing to do with the bottom. -/
def absent : BottomUse := ⟨false, false, 0⟩

/-- The bottom. -/
def alone : BottomUse := ⟨true, false, 1⟩

/-- A union with the bottom, which has it once. -/
def once : BottomUse := ⟨false, true, 1⟩

/-- A union of types. -/
def union (uses : List BottomUse) : BottomUse :=
  ⟨false, uses.any isAlone, (uses.map count).sum⟩

/-- A type to which the bottom is added if it is not to be seen. -/
def withBottom (use : BottomUse) : BottomUse :=
  if use.isAlone || use.isListed then use else ⟨false, true, use.count + 1⟩

/-- A composition, of which a single member is left as it is. -/
def combine (kind : CompositionKind) : List BottomUse → BottomUse
  | [] => absent
  | [use] => use
  | uses => if kind = .allOf then absent else union uses

/-- A type to which the bottom is added has it once if it was a union that has it once, or had
nothing to do with it. -/
theorem withBottom_eq_once_iff {use : BottomUse} :
    use.withBottom = once ↔ use = absent ∨ use = once := by
  obtain ⟨isAlone, isListed, count⟩ := use
  cases isAlone <;> cases isListed <;> simp [withBottom, once, absent]

theorem combine_eq_absent {kind : CompositionKind} {uses : List BottomUse}
    (h : ∀ use ∈ uses, use = absent) : combine kind uses = absent := by
  have hunion : union uses = absent := by
    obtain ⟨n, rfl⟩ : ∃ n, uses = List.replicate n absent :=
      ⟨uses.length, List.eq_replicate_of_mem h⟩
    simp [union, absent]
  match uses with
  | [] => rfl
  | [use] => exact h use List.mem_cons_self
  | _ :: _ :: _ =>
    rw [combine, hunion, ite_self]
    · exact nofun
    · exact nofun

end BottomUse

namespace TypeScript.Ty

variable {bottom : Primitive}

/-- What the type has to do with the bottom. -/
def bottomUse (bottom : Primitive) (type : Ty) : BottomUse :=
  ⟨type.isPrimitive bottom, type.lists bottom, type.bottoms bottom⟩

theorem bottomUse_primitive {other : Primitive} :
    (primitive other).bottomUse bottom = if other = bottom then .alone else .absent := by
  by_cases h : other = bottom
  · rw [if_pos h, h]
    simp [bottomUse, isPrimitive, lists, bottoms, alternatives, BottomUse.alone]
  · rw [if_neg h]
    simp [bottomUse, isPrimitive, lists, bottoms, alternatives, BottomUse.absent, h]

theorem bottomUse_self : (primitive bottom).bottomUse bottom = .alone := by
  rw [bottomUse_primitive, if_pos rfl]

theorem mem_alternativesOfList {alternative : Ty} {types : List Ty} :
    alternative ∈ alternativesOfList types ↔ ∃ type ∈ types, alternative ∈ type.alternatives := by
  induction types with
  | nil => simp [alternativesOfList]
  | cons type types ih => simp [alternativesOfList, ih]

theorem isPrimitive_self : (primitive bottom).isPrimitive bottom = true :=
  decide_eq_true rfl

theorem countP_alternativesOfList {types : List Ty} :
    (alternativesOfList types).countP (isPrimitive bottom) =
      ((types.map (bottomUse bottom)).map BottomUse.count).sum := by
  induction types with
  | nil => rfl
  | cons type types ih =>
    rw [alternativesOfList, List.countP_append, ih]
    rfl

theorem bottomUse_union {members : List Ty} :
    (union members).bottomUse bottom = .union (members.map (bottomUse bottom)) := by
  have hlisted : (union members).lists bottom =
      (members.map (bottomUse bottom)).any BottomUse.isAlone := by
    rw [lists, List.any_map]
    rfl
  have hcount : (union members).bottoms bottom =
      ((members.map (bottomUse bottom)).map BottomUse.count).sum := by
    rw [bottoms, alternatives, countP_alternativesOfList]
  rw [bottomUse, hlisted, hcount]
  rfl

/-- What is known of a union with the bottom, but for the number. -/
theorem bottomUse_union_of_mem {members : List Ty} (h : .primitive bottom ∈ members) :
    (union members).bottomUse bottom = ⟨false, true, (union members).bottoms bottom⟩ := by
  have hlisted : (union members).lists bottom = true :=
    List.any_eq_true.mpr ⟨_, h, isPrimitive_self⟩
  rw [bottomUse, hlisted]
  rfl

theorem bottoms_pos_of_mem {members : List Ty} (h : .primitive bottom ∈ members) :
    0 < (union members).bottoms bottom := by
  have halternative : primitive bottom ∈ (primitive bottom).alternatives := List.mem_singleton_self _
  exact List.countP_pos_iff.mpr
    ⟨_, mem_alternativesOfList.mpr ⟨_, h, halternative⟩, isPrimitive_self⟩

/-- A union keeps its members, and the bottom is put behind them if it is not one of them. -/
theorem bottomUse_withBottom_union {members : List Ty} :
    ((union members).withBottom bottom).bottomUse bottom =
      ((union members).bottomUse bottom).withBottom := by
  have halone : (members.map (bottomUse bottom)).any BottomUse.isAlone =
      members.any (isPrimitive bottom) := by
    rw [List.any_map]
    rfl
  rw [withBottom, bottomUse_union, bottomUse_union]
  by_cases hlisted : members.any (isPrimitive bottom)
  · rw [if_pos hlisted, BottomUse.withBottom, if_pos]
    rw [BottomUse.union, Bool.false_or]
    exact halone.trans hlisted
  · have hother := halone.trans (eq_false_of_ne_true hlisted)
    rw [if_neg hlisted, List.map_append, List.map_singleton, bottomUse_self]
    simp [BottomUse.union, BottomUse.withBottom, BottomUse.alone, hother]

theorem withBottom_eq_ite {type : Ty} (h : ¬ ∃ members, type = .union members) :
    type.withBottom bottom =
      if type.isPrimitive bottom then type else .union [type, .primitive bottom] := by
  cases type with
  | union members => exact absurd ⟨members, rfl⟩ h
  | _ => rfl

theorem bottomUse_withBottom {type : Ty} :
    (type.withBottom bottom).bottomUse bottom = (type.bottomUse bottom).withBottom := by
  by_cases hunion : ∃ members, type = .union members
  · obtain ⟨members, rfl⟩ := hunion
    exact bottomUse_withBottom_union
  · have hlisted : type.lists bottom = false := by
      cases type with
      | union members => exact absurd ⟨members, rfl⟩ hunion
      | _ => rfl
    rw [withBottom_eq_ite hunion]
    by_cases halone : type.isPrimitive bottom
    · rw [if_pos halone, BottomUse.withBottom, if_pos]
      rw [bottomUse, halone, Bool.true_or]
    · have hother := eq_false_of_ne_true halone
      rw [if_neg halone, bottomUse_union, List.map_cons, List.map_singleton, bottomUse_self]
      simp [bottomUse, BottomUse.union, BottomUse.withBottom, BottomUse.alone, hlisted, hother]

/-- A type with the bottom added to it is the bottom, or a union that has it among its members. -/
theorem withBottom_eq_or (bottom : Primitive) (type : Ty) :
    type.withBottom bottom = .primitive bottom ∨
      ∃ members, type.withBottom bottom = .union members ∧ .primitive bottom ∈ members := by
  by_cases hunion : ∃ members, type = .union members
  · obtain ⟨members, rfl⟩ := hunion
    refine Or.inr ⟨_, rfl, ?_⟩
    by_cases hlisted : members.any (isPrimitive bottom)
    · obtain ⟨member, hmember, h⟩ := List.any_eq_true.mp hlisted
      rw [if_pos hlisted, ← eq_of_isPrimitive h]
      exact hmember
    · rw [if_neg hlisted]
      exact List.mem_append_right _ List.mem_cons_self
  · rw [withBottom_eq_ite hunion]
    by_cases halone : type.isPrimitive bottom
    · rw [if_pos halone]
      exact Or.inl (eq_of_isPrimitive halone)
    · rw [if_neg halone]
      exact Or.inr ⟨_, rfl, List.mem_cons_of_mem _ List.mem_cons_self⟩

theorem bottomUse_combine (kind : CompositionKind) {types : List Ty} (hbottom : bottom ≠ .never) :
    (combine (if kind = .allOf then .intersection else .union) types).bottomUse bottom =
      .combine kind (types.map (bottomUse bottom)) := by
  match types with
  | [] =>
    rw [combine, bottomUse_primitive, if_neg hbottom.symm]
    rfl
  | [type] => rfl
  | first :: second :: rest =>
    by_cases hkind : kind = .allOf
    · rw [if_pos hkind, hkind]
      rfl
    · have hcombine : ∀ use other uses,
          BottomUse.combine kind (use :: other :: uses) = .union (use :: other :: uses) :=
        fun _ _ _ => if_neg hkind
      rw [if_neg hkind, List.map_cons, List.map_cons, hcombine]
      exact bottomUse_union

end TypeScript.Ty

/-! ## What a shape has to do with the bottom -/

mutual

/-- What the type of a kind of shapes has to do with the bottom. -/
def ShapeKind.bottomUse (style : NullableType) : ShapeKind → BottomUse
  | .primitive type _ => if type = .null ∧ style = .null then .alone else .absent
  | .composition kind members _ => .combine kind (Shape.bottomUses style members)
  | _ => .absent

/-- What the type of a shape has to do with the bottom. -/
def Shape.bottomUse (style : NullableType) : Shape → BottomUse
  | ⟨kind, nullable, _⟩ =>
    if nullable then (kind.bottomUse style).withBottom else kind.bottomUse style

/-- What the types of shapes have to do with the bottom. -/
def Shape.bottomUses (style : NullableType) : List Shape → List BottomUse
  | [] => []
  | shape :: rest => shape.bottomUse style :: Shape.bottomUses style rest

end

namespace Shape

variable {scope : Scope} {before after final : Progress} {style : NullableType}

theorem bottomUse_ofPrimitive {settings : Settings} {format : Option String}
    {primitive : PrimitiveType} :
    (primitive.type settings format).bottomUse style.bottom =
      (ShapeKind.primitive primitive format).bottomUse style := by
  cases primitive with
  | string =>
    rw [PrimitiveType.type]
    split <;> cases style <;> rfl
  | _ => cases style <;> rfl

theorem bottomUse_unknown : (Ty.primitive .unknown).bottomUse style.bottom = .absent := by
  cases style <;> rfl

theorem bottom_ne_never (style : NullableType) : style.bottom ≠ .never := by
  cases style <;> exact nofun

theorem bottomUses_of_forall₂ {shapes : List Shape} {types : List Ty} {bottom : Primitive}
    (h : List.Forall₂ (fun shape type => type.bottomUse bottom = bottomUse style shape)
      shapes types) :
    types.map (Ty.bottomUse bottom) = bottomUses style shapes := by
  induction h with
  | nil => rfl
  | cons hhead _ ih => rw [List.map_cons, hhead, ih, bottomUses]

/-- **What the type has to do with the bottom is computed from the shape.** -/
theorem bottomUse_of_writtenAs {shape : Shape} {type : Ty} (h : WrittenAs scope final shape type) :
    type.bottomUse scope.settings.nullableType.bottom =
      shape.bottomUse scope.settings.nullableType := by
  -- the flag adds the bottom on both sides
  have hflag : ∀ {kind nullable description type},
      WrittenAs scope final ⟨kind, nullable, description⟩ type →
      (∀ core, CoreWrittenAs scope final kind core →
        core.bottomUse scope.settings.nullableType.bottom =
          kind.bottomUse scope.settings.nullableType) →
      type.bottomUse scope.settings.nullableType.bottom =
        bottomUse scope.settings.nullableType ⟨kind, nullable, description⟩ := by
    intro kind nullable description type hwritten hkind
    obtain ⟨core, hcore, rfl⟩ := hwritten.cases
    rw [bottomUse, ← hkind core hcore, Ty.nullableIf]
    by_cases hnullable : nullable
    · rw [if_pos hnullable, if_pos hnullable, Ty.bottomUse_withBottom]
    · rw [if_neg hnullable, if_neg hnullable]
  induction shape using Shape.induct generalizing type with
  | primitive =>
    refine hflag h fun core hcore => ?_
    cases hcore
    exact bottomUse_ofPrimitive
  | array =>
    refine hflag h fun core hcore => ?_
    cases hcore
    rfl
  | object =>
    refine hflag h fun core hcore => ?_
    cases hcore with
    | dictionary htype => cases htype <;> rfl
    | object hne hproperties htype => cases htype <;> rfl
  | reference =>
    refine hflag h fun core hcore => ?_
    cases hcore
    rfl
  | enumeration values =>
    refine hflag h fun core hcore => ?_
    cases hcore with
    | hoisted => rfl
    | literals =>
      -- a literal is not the bottom, which is a primitive type also where it is null
      have hliterals : ∀ use ∈ (values.map fun value => Ty.literal value.literal).map
          (Ty.bottomUse scope.settings.nullableType.bottom), use = .absent := by
        intro use huse
        simp only [List.map_map, List.mem_map] at huse
        obtain ⟨value, -, rfl⟩ := huse
        rfl
      exact (Ty.bottomUse_combine .anyOf (bottom_ne_never _)).trans
        (BottomUse.combine_eq_absent hliterals)
  | composition kind members discriminator nullable description ih =>
    refine hflag h fun core hcore => ?_
    cases hcore with
    | composition htypes =>
      have hmembers : ∀ member ∈ members, ∀ type, WrittenAs scope final member type →
          type.bottomUse scope.settings.nullableType.bottom =
            member.bottomUse scope.settings.nullableType :=
        fun member hmember type htype => ih member hmember htype
      have huses := (List.forall₂_and_left _ _).mpr ⟨hmembers, htypes⟩
      rw [Ty.bottomUse_combine kind (bottom_ne_never _), ShapeKind.bottomUse,
        bottomUses_of_forall₂ (huses.imp fun _ type h => h.1 type h.2)]
  | constant =>
    refine hflag h fun core hcore => ?_
    cases hcore
    rfl
  | unknown =>
    refine hflag h fun core hcore => ?_
    cases hcore
    exact bottomUse_unknown
  | unclassified =>
    refine hflag h fun core hcore => ?_
    cases hcore
    exact bottomUse_unknown

/-! ## Which nullable shapes have one bottom -/

/-- **The bottom of a nullable shape.**  Its type is the bottom, or a union with the bottom, and the
number of times that it has the bottom is told by the shape.  It is a union with one bottom exactly if
the type without the flag had nothing to do with the bottom, or listed it and had it nowhere else. -/
theorem type_bottoms {shape : Shape} {type : Ty} {parent property : Option String}
    (hnullable : shape.nullable = true)
    (h : shape.type parent property scope before = (.ok type, after)) :
    (type = .primitive scope.settings.nullableType.bottom ∨ ∃ members, type = .union members ∧
        .primitive scope.settings.nullableType.bottom ∈ members) ∧
      type.bottoms scope.settings.nullableType.bottom =
        (shape.bottomUse scope.settings.nullableType).count ∧
      1 ≤ type.bottoms scope.settings.nullableType.bottom ∧
      ((∃ members, type = .union members) ∧
          type.bottoms scope.settings.nullableType.bottom = 1 ↔
        shape.kind.bottomUse scope.settings.nullableType = .absent ∨
          shape.kind.bottomUse scope.settings.nullableType = .once) := by
  have hwritten : WrittenAs scope after shape type :=
    ⟨parent, property, before, after, h, le_refl after⟩
  have huse := bottomUse_of_writtenAs hwritten
  have hkind : shape.bottomUse scope.settings.nullableType =
      (shape.kind.bottomUse scope.settings.nullableType).withBottom := by
    obtain ⟨kind, nullable, description⟩ := shape
    exact if_pos hnullable
  have hform : type = .primitive scope.settings.nullableType.bottom ∨
      ∃ members, type = .union members ∧
        .primitive scope.settings.nullableType.bottom ∈ members := by
    obtain ⟨core, -, rfl⟩ := hwritten.cases
    rw [hnullable]
    exact Ty.withBottom_eq_or _ core
  have hcount := congrArg BottomUse.count huse
  refine ⟨hform, hcount, ?_, ?_⟩
  · rcases hform with rfl | ⟨members, rfl, hmem⟩
    · exact Nat.le_of_eq (congrArg BottomUse.count Ty.bottomUse_self).symm
    · exact Ty.bottoms_pos_of_mem hmem
  · rw [← BottomUse.withBottom_eq_once_iff, ← hkind, ← huse]
    rcases hform with rfl | ⟨members, rfl, hmem⟩
    · rw [Ty.bottomUse_self]
      constructor
      · rintro ⟨⟨_, hunion⟩, -⟩
        cases hunion
      · intro halone
        cases halone
    · rw [Ty.bottomUse_union_of_mem hmem, BottomUse.once, BottomUse.mk.injEq]
      simp

/-- A scope without a document, with the default settings. -/
def emptyScope : Scope where
  root := .null
  settings := {}
  bindings := []
  shapeNames := []

/-- Text, a number, a list of texts that may be missing, or null. -/
def textOrNumbers : Json :=
  .object [("oneOf", .array
    [.object [("type", .string "string")],
      .object [("anyOf", .array
        [.object [("type", .string "integer")],
          .object [("type", .string "array"),
            ("items", .object [("type", .array [.string "string", .string "null"])])]])],
      .object [("type", .string "null")]])]

theorem type_bottoms_textOrNumbers :
    ∃ shape type after, Shape.ofJson? textOrNumbers = some shape ∧ shape.nullable = true ∧
      shape.type none none emptyScope {} = (.ok type, after) ∧
      type.alternatives =
        [.primitive .string, .primitive .number,
          .array (.union [.primitive .string, .primitive .null]), .primitive .null] ∧
      (∃ members, type = .union members) ∧
      type.bottoms emptyScope.settings.nullableType.bottom = 1 := by
  obtain ⟨shape, type, after, hshape, hnullable, h, halternatives, huse⟩ :
      ∃ shape type after, Shape.ofJson? textOrNumbers = some shape ∧ shape.nullable = true ∧
        shape.type none none emptyScope {} = (.ok type, after) ∧
        type.alternatives =
          [.primitive .string, .primitive .number,
            .array (.union [.primitive .string, .primitive .null]), .primitive .null] ∧
        shape.kind.bottomUse emptyScope.settings.nullableType = .absent :=
    ⟨_, _, _, rfl, rfl, rfl, rfl, rfl⟩
  obtain ⟨-, -, -, hsingle⟩ := type_bottoms hnullable h
  exact ⟨shape, type, after, hshape, hnullable, h, halternatives, hsingle.mpr (Or.inl huse)⟩

/-- Texts or numbers, where the texts may be null as well as the whole. -/
def textOrNumber : Json :=
  .object [("nullable", .boolean true),
    ("anyOf", .array
      [.object [("type", .string "string"), ("nullable", .boolean true)],
        .object [("type", .string "number")]])]

/-- **The bottom may stand in a type twice.** -/
theorem exists_second_bottom :
    ∃ shape type after, Shape.ofJson? textOrNumber = some shape ∧ shape.nullable = true ∧
      shape.isNull = false ∧ shape.type none none emptyScope {} = (.ok type, after) ∧
      type.alternatives =
        [.primitive .string, .primitive .null, .primitive .number, .primitive .null] ∧
      type.bottoms emptyScope.settings.nullableType.bottom = 2 :=
  ⟨_, _, _, rfl, rfl, rfl, rfl, rfl, rfl⟩

end Shape

end ApiScribe
