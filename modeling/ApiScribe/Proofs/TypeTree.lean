import ApiScribe.Proofs.TypeTokens

/-!
# The trees of types

What the text of a type says is a tree.  Parentheses leave no trace in it: a union among the members
of a union counts for its own members, and what is alone counts for itself.  So `TypeTree.join` puts
trees together by their parts, and no tree that it makes has a union among the members of a union, or
a union with one member (`TypeTree.isFlat_join`).

`Ty.tree` is the tree that a type is meant to be read as, and `Ty.isFlat_tree` says that it is flat.
-/

namespace ApiScribe.TypeScript

/-! ## Trees -/

/-- The two ways of putting types together side by side. -/
inductive Joint where
  | union
  | intersection
deriving DecidableEq, Repr

/-- The mark between the members. -/
def Joint.mark : Joint → Mark
  | .union => .bar
  | .intersection => .ampersand

/-- What the text of a type says. -/
inductive TypeTree where
  | keyword (word : String)
  | numeral (spelling : String)
  | quoted (value : String)
  | named (name : String)
  | array (item : TypeTree)
  | compound (joint : Joint) (members : List TypeTree)
  | object (properties : List (String × Bool × TypeTree)) (index : Option TypeTree)
  | record (key value : TypeTree)
  | applied (name : String) (arguments : List TypeTree)

namespace TypeTree

/-- What a tree contributes to the members around it. -/
def parts (joint : Joint) : TypeTree → List TypeTree
  | .compound other members => if other = joint then members else [.compound other members]
  | tree => [tree]

/-- Members put together; one alone stands for itself. -/
def joined (joint : Joint) : List TypeTree → TypeTree
  | [tree] => tree
  | trees => .compound joint trees

/-- Trees put together. -/
def join (joint : Joint) (trees : List TypeTree) : TypeTree :=
  joined joint (trees.flatMap (parts joint))

end TypeTree

/-! ## The tree of a type -/

/-- The tree of a literal. -/
def Literal.tree : Literal → TypeTree
  | .string value => .quoted value
  | .number value => .numeral value.text
  | .integer value => .numeral (toString value)
  | .boolean true => .keyword "true"
  | .boolean false => .keyword "false"
  | .null => .keyword "null"

mutual

/-- The tree that a type is meant to be read as. -/
def Ty.tree : Ty → TypeTree
  | .primitive primitive => .keyword primitive.text
  | .array item => .array item.tree
  | .union members => .join .union (Ty.trees members)
  | .intersection members => .join .intersection (Ty.trees members)
  | .object properties index => .object (Property.trees properties) (Ty.tree? index)
  | .record key value => .record key.tree value.tree
  | .literal literal => literal.tree
  | .named name => .named name
  | .generic name arguments => .applied name (Ty.trees arguments)

/-- The trees of types. -/
def Ty.trees : List Ty → List TypeTree
  | [] => []
  | type :: rest => type.tree :: Ty.trees rest

/-- The tree of a type that need not be there. -/
def Ty.tree? : Option Ty → Option TypeTree
  | none => none
  | some type => some type.tree

/-- The tree of a property, with its name and whether it is optional. -/
def Property.tree : Property → String × Bool × TypeTree
  | ⟨name, type, optional, _⟩ => (name, optional, type.tree)

/-- The trees of properties. -/
def Property.trees : List Property → List (String × Bool × TypeTree)
  | [] => []
  | property :: rest => property.tree :: Property.trees rest

end

theorem Ty.trees_eq (types : List Ty) : Ty.trees types = types.map Ty.tree := by
  induction types with
  | nil => rfl
  | cons type types ih => rw [Ty.trees, List.map_cons, ih]

theorem Property.trees_eq (properties : List Property) :
    Property.trees properties = properties.map Property.tree := by
  induction properties with
  | nil => rfl
  | cons property properties ih => rw [Property.trees, List.map_cons, ih]

theorem Ty.tree?_eq (index : Option Ty) : Ty.tree? index = index.map Ty.tree := by
  cases index <;> rfl

/-! ## Trees without parentheses -/

namespace TypeTree

/-- The tree is put together in another way, or not at all. -/
def IsOther (joint : Joint) (tree : TypeTree) : Prop :=
  ∀ members, tree ≠ .compound joint members

/-- Compound trees have members that are other, and not just one. -/
inductive IsFlat : TypeTree → Prop
  | other {tree : TypeTree} (h : ∀ joint, tree.IsOther joint) : IsFlat tree
  | compound {joint : Joint} {members : List TypeTree} (hlength : members.length ≠ 1)
    (hflat : ∀ member ∈ members, IsFlat member)
    (hother : ∀ member ∈ members, member.IsOther joint) : IsFlat (.compound joint members)

variable {joint : Joint} {tree : TypeTree} {trees : List TypeTree}

theorem parts_of_isOther (h : tree.IsOther joint) : tree.parts joint = [tree] := by
  cases tree with
  | compound other members =>
    have hne : other ≠ joint := by
      rintro rfl
      exact h members rfl
    exact if_neg hne
  | _ => rfl

theorem exists_of_not_isOther (h : ¬ tree.IsOther joint) :
    ∃ members, tree = .compound joint members := by
  rw [IsOther, not_forall] at h
  obtain ⟨members, hmembers⟩ := h
  exact ⟨members, not_not.mp hmembers⟩

theorem parts_compound (joint : Joint) (members : List TypeTree) :
    (compound joint members).parts joint = members :=
  if_pos rfl

theorem joined_of_length_ne_one (h : trees.length ≠ 1) :
    joined joint trees = .compound joint trees := by
  match trees with
  | [] => rfl
  | [_] => exact absurd rfl h
  | _ :: _ :: _ => rfl

/-- What a flat tree contributes is flat and other. -/
theorem IsFlat.of_mem_parts (h : tree.IsFlat) {part : TypeTree} (hpart : part ∈ tree.parts joint) :
    part.IsFlat ∧ part.IsOther joint := by
  by_cases hother : tree.IsOther joint
  · rw [parts_of_isOther hother, List.mem_singleton] at hpart
    exact hpart ▸ ⟨h, hother⟩
  · obtain ⟨members, rfl⟩ := exists_of_not_isOther hother
    rw [parts_compound] at hpart
    cases h with
    | other h => exact absurd rfl (h joint members)
    | compound _ hflat hother => exact ⟨hflat part hpart, hother part hpart⟩

/-- **A flat tree is what its parts make.** -/
theorem IsFlat.joined_parts (h : tree.IsFlat) (joint : Joint) :
    joined joint (tree.parts joint) = tree := by
  by_cases hother : tree.IsOther joint
  · rw [parts_of_isOther hother]
    rfl
  · obtain ⟨members, rfl⟩ := exists_of_not_isOther hother
    cases h with
    | other h => exact absurd rfl (h joint members)
    | compound hlength _ _ => rw [parts_compound, joined_of_length_ne_one hlength]

theorem of_mem_flatMap_parts (h : ∀ tree ∈ trees, tree.IsFlat) {part : TypeTree}
    (hpart : part ∈ trees.flatMap (parts joint)) : part.IsFlat ∧ part.IsOther joint := by
  obtain ⟨tree, htree, hpart⟩ := List.mem_flatMap.mp hpart
  exact (h tree htree).of_mem_parts hpart

theorem parts_join (h : ∀ tree ∈ trees, tree.IsFlat) :
    (join joint trees).parts joint = trees.flatMap (parts joint) := by
  rw [join]
  by_cases hlength : (trees.flatMap (parts joint)).length = 1
  · obtain ⟨part, hpart⟩ := List.length_eq_one_iff.mp hlength
    have hother : part.IsOther joint :=
      (of_mem_flatMap_parts h (by rw [hpart]; exact List.mem_singleton_self part)).2
    rw [hpart]
    exact parts_of_isOther hother
  · rw [joined_of_length_ne_one hlength, parts_compound]

theorem isFlat_join (h : ∀ tree ∈ trees, tree.IsFlat) : (join joint trees).IsFlat := by
  rw [join]
  by_cases hlength : (trees.flatMap (parts joint)).length = 1
  · obtain ⟨part, hpart⟩ := List.length_eq_one_iff.mp hlength
    rw [hpart]
    exact (of_mem_flatMap_parts h (by rw [hpart]; exact List.mem_singleton_self part)).1
  · rw [joined_of_length_ne_one hlength]
    exact .compound hlength (fun part hpart => (of_mem_flatMap_parts h hpart).1)
      fun part hpart => (of_mem_flatMap_parts h hpart).2

end TypeTree

theorem Ty.isFlat_join_trees {joint : Joint} {members : List Ty}
    (h : ∀ member ∈ members, member.tree.IsFlat) :
    (TypeTree.join joint (trees members)).IsFlat := by
  refine TypeTree.isFlat_join fun found hfound => ?_
  rw [trees_eq] at hfound
  obtain ⟨member, hmember, rfl⟩ := List.mem_map.mp hfound
  exact h member hmember

/-- **The tree of a type is flat.** -/
theorem Ty.isFlat_tree (type : Ty) : type.tree.IsFlat := by
  induction type.everywhere (P := fun _ => True) fun _ => trivial with
  | union _ _ ih => exact isFlat_join_trees ih
  | intersection _ _ ih => exact isFlat_join_trees ih
  | @literal literal _ =>
    refine .other fun joint members heq => ?_
    cases literal with
    | boolean value => cases value <;> cases heq
    | _ => cases heq
  | _ => exact .other fun joint members heq => by cases heq

theorem Ty.forall_isFlat (types : List Ty) : ∀ found ∈ types.map tree, found.IsFlat := by
  intro found hfound
  obtain ⟨type, -, rfl⟩ := List.mem_map.mp hfound
  exact type.isFlat_tree

end ApiScribe.TypeScript
