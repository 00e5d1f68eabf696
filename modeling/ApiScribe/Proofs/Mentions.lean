import ApiScribe.Shape.Type
import ApiScribe.TypeScript.Names
import Mathlib.Data.List.Sort
import Mathlib.Data.String.Basic

/-!
# Names that types mention

`Ty.Mentions` says where a name stands in a type, and `DeclarationKind.Mentions` where it stands
in a declaration, the bases of an interface included.  `Ty.names` collects exactly these names
(`mem_names_iff`), and `sortedNames` brings them in strictly ascending order without losing any.

A type is `Closed` under a set of names if it mentions no others.  The lemmas on `Closed` follow
the ways in which types are put together.
-/

namespace ApiScribe.TypeScript

/-- The name stands somewhere in the type as the name of a declared type. -/
inductive Ty.Mentions (name : String) : Ty → Prop
  | named : Mentions name (.named name)
  | array {item : Ty} (h : Mentions name item) : Mentions name (.array item)
  | union {members : List Ty} {type : Ty} (hmem : type ∈ members) (h : Mentions name type) :
    Mentions name (.union members)
  | intersection {members : List Ty} {type : Ty} (hmem : type ∈ members)
    (h : Mentions name type) : Mentions name (.intersection members)
  | property {properties : List Property} {index : Option Ty} {property : Property}
    (hmem : property ∈ properties) (h : Mentions name property.type) :
    Mentions name (.object properties index)
  | index {properties : List Property} {type : Ty} (h : Mentions name type) :
    Mentions name (.object properties (some type))
  | key {key value : Ty} (h : Mentions name key) : Mentions name (.record key value)
  | value {key value : Ty} (h : Mentions name value) : Mentions name (.record key value)
  | argument {callee : String} {arguments : List Ty} {type : Ty} (hmem : type ∈ arguments)
    (h : Mentions name type) : Mentions name (.generic callee arguments)

/-- The name stands somewhere in the declaration as the name of a declared type. -/
inductive DeclarationKind.Mentions (name : String) : DeclarationKind → Prop
  | base {bases : List String} {properties : List Property} {index : Option Ty}
    (h : name ∈ bases) : Mentions name (.interface bases properties index)
  | property {bases : List String} {properties : List Property} {index : Option Ty}
    {property : Property} (hmem : property ∈ properties) (h : property.type.Mentions name) :
    Mentions name (.interface bases properties index)
  | index {bases : List String} {properties : List Property} {index : Option Ty} {type : Ty}
    (hindex : index = some type) (h : type.Mentions name) :
    Mentions name (.interface bases properties index)
  | aliased {type : Ty} (h : type.Mentions name) : Mentions name (.alias type)

/-! ## The names that are collected -/

section Names

variable {name : String}

mutual

theorem Ty.mentions_of_mem_names : ∀ {type : Ty}, name ∈ type.names → type.Mentions name
  | .primitive _, h => absurd h List.not_mem_nil
  | .literal _, h => absurd h List.not_mem_nil
  | .named other, h => by
    rw [Ty.names, List.mem_singleton] at h
    rw [h]
    exact Ty.Mentions.named
  | .array item, h => by
    rw [Ty.names] at h
    exact Ty.Mentions.array (Ty.mentions_of_mem_names h)
  | .union members, h => by
    rw [Ty.names] at h
    obtain ⟨type, hmem, htype⟩ := Ty.mentions_of_mem_namesOfList h
    exact Ty.Mentions.union hmem htype
  | .intersection members, h => by
    rw [Ty.names] at h
    obtain ⟨type, hmem, htype⟩ := Ty.mentions_of_mem_namesOfList h
    exact Ty.Mentions.intersection hmem htype
  | .generic _ arguments, h => by
    rw [Ty.names] at h
    obtain ⟨type, hmem, htype⟩ := Ty.mentions_of_mem_namesOfList h
    exact Ty.Mentions.argument hmem htype
  | .record key value, h => by
    rw [Ty.names, List.mem_append] at h
    rcases h with h | h
    · exact Ty.Mentions.key (Ty.mentions_of_mem_names h)
    · exact Ty.Mentions.value (Ty.mentions_of_mem_names h)
  | .object properties none, h => by
    rw [Ty.names, List.mem_append] at h
    rcases h with h | h
    · obtain ⟨property, hmem, hproperty⟩ := Property.mentions_of_mem_namesOfList h
      exact Ty.Mentions.property hmem hproperty
    · exact absurd h List.not_mem_nil
  | .object properties (some type), h => by
    rw [Ty.names, List.mem_append] at h
    rcases h with h | h
    · obtain ⟨property, hmem, hproperty⟩ := Property.mentions_of_mem_namesOfList h
      exact Ty.Mentions.property hmem hproperty
    · exact Ty.Mentions.index (Ty.mentions_of_mem_names h)

theorem Ty.mentions_of_mem_namesOfList :
    ∀ {types : List Ty}, name ∈ Ty.namesOfList types → ∃ type ∈ types, type.Mentions name
  | [], h => absurd h List.not_mem_nil
  | type :: types, h => by
    rw [Ty.namesOfList, List.mem_append] at h
    rcases h with h | h
    · exact ⟨type, List.mem_cons_self, Ty.mentions_of_mem_names h⟩
    · obtain ⟨other, hmem, hother⟩ := Ty.mentions_of_mem_namesOfList h
      exact ⟨other, List.mem_cons_of_mem _ hmem, hother⟩

theorem Property.mentions_of_mem_names :
    ∀ {property : Property}, name ∈ property.names → property.type.Mentions name
  | ⟨_, type, _, _⟩, h => by
    rw [Property.names] at h
    exact Ty.mentions_of_mem_names h

theorem Property.mentions_of_mem_namesOfList : ∀ {properties : List Property},
    name ∈ Property.namesOfList properties → ∃ property ∈ properties, property.type.Mentions name
  | [], h => absurd h List.not_mem_nil
  | property :: properties, h => by
    rw [Property.namesOfList, List.mem_append] at h
    rcases h with h | h
    · exact ⟨property, List.mem_cons_self, Property.mentions_of_mem_names h⟩
    · obtain ⟨other, hmem, hother⟩ := Property.mentions_of_mem_namesOfList h
      exact ⟨other, List.mem_cons_of_mem _ hmem, hother⟩

end

theorem Ty.mem_namesOfList {types : List Ty} {type : Ty} (hmem : type ∈ types)
    (h : name ∈ type.names) : name ∈ Ty.namesOfList types := by
  induction types with
  | nil => cases hmem
  | cons first types ih =>
    rw [Ty.namesOfList, List.mem_append]
    rcases List.mem_cons.mp hmem with rfl | hmem
    · exact Or.inl h
    · exact Or.inr (ih hmem)

theorem Property.names_eq (property : Property) : property.names = property.type.names := by
  cases property
  rw [Property.names]

theorem Property.mem_namesOfList {properties : List Property} {property : Property}
    (hmem : property ∈ properties) (h : name ∈ property.type.names) :
    name ∈ Property.namesOfList properties := by
  induction properties with
  | nil => cases hmem
  | cons first properties ih =>
    rw [Property.namesOfList, List.mem_append, Property.names_eq]
    rcases List.mem_cons.mp hmem with rfl | hmem
    · exact Or.inl h
    · exact Or.inr (ih hmem)

/-- **The names that are collected from a type are those that it mentions.** -/
theorem Ty.mem_names_iff {type : Ty} : name ∈ type.names ↔ type.Mentions name := by
  refine ⟨Ty.mentions_of_mem_names, ?_⟩
  intro h
  induction h with
  | named => exact List.mem_singleton_self name
  | array _ ih =>
    rw [Ty.names]
    exact ih
  | union hmem _ ih | intersection hmem _ ih | argument hmem _ ih =>
    rw [Ty.names]
    exact Ty.mem_namesOfList hmem ih
  | property hmem _ ih =>
    rw [Ty.names.eq_def]
    exact List.mem_append_left _ (Property.mem_namesOfList hmem ih)
  | index _ ih | value _ ih =>
    rw [Ty.names]
    exact List.mem_append_right _ ih
  | key _ ih =>
    rw [Ty.names]
    exact List.mem_append_left _ ih

theorem mem_insertName {other : String} {names : List String} :
    name ∈ insertName other names ↔ name = other ∨ name ∈ names := by
  induction names with
  | nil => exact List.mem_cons
  | cons first names ih =>
    rw [insertName]
    split
    next heq =>
      rw [heq, List.mem_cons, or_self_left]
    next =>
      split
      · exact List.mem_cons
      · rw [List.mem_cons, ih, List.mem_cons, or_left_comm]

theorem mem_sortedNames {names : List String} : name ∈ sortedNames names ↔ name ∈ names := by
  induction names with
  | nil => rfl
  | cons first names ih => rw [sortedNames, mem_insertName, ih, List.mem_cons]

theorem pairwise_insertName {names : List String} (h : names.Pairwise (· < ·)) :
    (insertName name names).Pairwise (· < ·) := by
  induction names with
  | nil => exact List.pairwise_singleton _ _
  | cons first names ih =>
    obtain ⟨hfirst, hnames⟩ := List.pairwise_cons.mp h
    rw [insertName]
    split
    · exact h
    next hne =>
      split
      next hlt =>
        refine List.pairwise_cons.mpr ⟨?_, h⟩
        intro other hother
        rcases List.mem_cons.mp hother with rfl | hother
        · exact hlt
        · exact lt_trans hlt (hfirst other hother)
      next hnlt =>
        refine List.pairwise_cons.mpr ⟨?_, ih hnames⟩
        intro other hother
        rcases mem_insertName.mp hother with rfl | hother
        · exact lt_of_le_of_ne (not_lt.mp hnlt) (Ne.symm hne)
        · exact hfirst other hother

/-- **Sorted names are in strictly ascending order.** -/
theorem pairwise_sortedNames (names : List String) : (sortedNames names).Pairwise (· < ·) := by
  induction names with
  | nil => exact List.Pairwise.nil
  | cons first names ih => exact pairwise_insertName ih

end Names

/-! ## Closed types -/

/-- The type mentions only such names. -/
def Ty.Closed (declared : String → Prop) (type : Ty) : Prop :=
  ∀ name, type.Mentions name → declared name

section Closed

variable {declared : String → Prop}

theorem Ty.closed_primitive (primitive : Primitive) :
    Ty.Closed declared (.primitive primitive) := by
  intro name hmentions
  cases hmentions

theorem Ty.closed_literal (literal : Literal) : Ty.Closed declared (.literal literal) := by
  intro name hmentions
  cases hmentions

theorem Ty.closed_named {name : String} (h : declared name) :
    Ty.Closed declared (.named name) := by
  intro other hmentions
  cases hmentions
  exact h

theorem Ty.Closed.array {item : Ty} (h : item.Closed declared) :
    Ty.Closed declared (.array item) := by
  intro name hmentions
  cases hmentions with
  | array hitem => exact h name hitem

theorem Ty.Closed.union {members : List Ty} (h : ∀ type ∈ members, Ty.Closed declared type) :
    Ty.Closed declared (.union members) := by
  intro name hmentions
  cases hmentions with
  | union hmem htype => exact h _ hmem name htype

theorem Ty.Closed.intersection {members : List Ty}
    (h : ∀ type ∈ members, Ty.Closed declared type) :
    Ty.Closed declared (.intersection members) := by
  intro name hmentions
  cases hmentions with
  | intersection hmem htype => exact h _ hmem name htype

theorem Ty.Closed.object {properties : List Property} {index : Option Ty}
    (hproperties : ∀ property ∈ properties, property.type.Closed declared)
    (hindex : ∀ type, index = some type → type.Closed declared) :
    Ty.Closed declared (.object properties index) := by
  intro name hmentions
  cases hmentions with
  | property hmem hproperty => exact hproperties _ hmem name hproperty
  | index htype => exact hindex _ rfl name htype

theorem Ty.Closed.dictionary {value : Ty} (h : value.Closed declared) :
    (Ty.dictionary value).Closed declared := by
  intro name hmentions
  cases hmentions with
  | key hkey => exact Ty.closed_primitive _ name hkey
  | value hvalue => exact h name hvalue

theorem Ty.Closed.withBottom {type : Ty} (h : type.Closed declared) (bottom : Primitive) :
    (type.withBottom bottom).Closed declared := by
  have hunion : ∀ members : List Ty, Ty.Closed declared (.union members) →
      ∀ type ∈ members ++ [.primitive bottom], Ty.Closed declared type := by
    intro members hmembers type hmem
    rcases List.mem_append.mp hmem with hmem | hmem
    · exact fun name htype => hmembers name (Ty.Mentions.union hmem htype)
    · rw [List.mem_singleton.mp hmem]
      exact Ty.closed_primitive bottom
  rw [Ty.withBottom.eq_def]
  split
  next members =>
    split
    · exact h
    · exact Ty.Closed.union (hunion members h)
  next =>
    split
    · exact h
    · apply Ty.Closed.union
      intro other hmem
      rcases List.mem_pair.mp hmem with rfl | rfl
      · exact h
      · exact Ty.closed_primitive bottom

theorem Ty.Closed.nullableIf {type : Ty} (h : type.Closed declared) (nullable : Bool)
    (style : NullableType) : (type.nullableIf nullable style).Closed declared := by
  rw [Ty.nullableIf]
  split
  · exact h.withBottom _
  · exact h

theorem Ty.Closed.combine {wrap : List Ty → Ty} {types : List Ty}
    (hwrap : (wrap types).Closed declared) (h : ∀ type ∈ types, Ty.Closed declared type) :
    (Ty.combine wrap types).Closed declared := by
  rw [Ty.combine.eq_def]
  split
  · exact Ty.closed_primitive _
  · exact h _ (List.mem_singleton_self _)
  · exact hwrap

end Closed

end ApiScribe.TypeScript
