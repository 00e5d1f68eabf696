import ApiScribe.Operation.Basic
import Mathlib.Data.List.Induction
import Mathlib.Data.List.Nodup

/-!
# Operations by tag

`Operation.byTag` appends one operation after the other to the groups of its tags.  What this
amounts to can be said without the order of the steps: `byTag_eq` lists the tags of all operations,
each at its first occurrence, and gives to each the operations that belong to it, in their order.

The steps do not know of operations.  A table that is built by `Table.push` from a list of entries
is the table `collected` from them (`foldl_push`), whatever the entries are.
-/

namespace ApiScribe

/-! ## First occurrences -/

section Distinct

variable {α β : Type} [DecidableEq α]

theorem distinct_of_nodup {xs : List α} (h : xs.Nodup) : distinct xs = xs := by
  induction xs with
  | nil => rfl
  | cons x xs ih =>
    obtain ⟨hx, hxs⟩ := List.nodup_cons.mp h
    rw [distinct, ih hxs, List.filter_eq_self.mpr]
    intro y hy
    exact decide_eq_true fun heq => hx (heq ▸ hy)

/-- Behind other elements, only those count that are not among them. -/
theorem distinct_append (xs ys : List α) :
    distinct (xs ++ ys) = distinct xs ++ (distinct ys).filter fun y => y ∉ xs := by
  induction xs with
  | nil => simp [distinct]
  | cons x xs ih =>
    rw [List.cons_append, distinct, ih, distinct, List.cons_append, List.filter_append,
      List.filter_filter]
    congr 3
    funext y
    simp [not_or]

/-- An element that comes last counts only if it is new. -/
theorem distinct_concat (xs : List α) (x : α) :
    distinct (xs ++ [x]) = if x ∈ xs then distinct xs else distinct xs ++ [x] := by
  rw [distinct_append]
  split
  next hmem => simp [distinct, hmem]
  next hnew => simp [distinct, hnew]

/-- It does not matter whether repetitions are dropped in the parts first. -/
theorem distinct_flatMap_distinct (f : β → List α) (xs : List β) :
    distinct (xs.flatMap fun x => distinct (f x)) = distinct (xs.flatMap f) := by
  induction xs with
  | nil => rfl
  | cons x xs ih =>
    rw [List.flatMap_cons, List.flatMap_cons, distinct_append, distinct_append, ih,
      distinct_of_nodup (nodup_distinct (f x))]
    simp only [mem_distinct]

end Distinct

/-! ## Collecting values under names -/

namespace Table

variable {α : Type} {names : List String} {values : String → List α} {name : String}

/-- The values of entries under their names: the names come in the order of their first
occurrences, and the values of a name in the order of the entries. -/
def collected (entries : List (String × α)) : Table (List α) :=
  (distinct (entries.map Prod.fst)).map fun name =>
    (name, (entries.filter fun entry => entry.1 = name).map Prod.snd)

theorem push_map_of_notMem (h : name ∉ names) (value : α) :
    Table.push (names.map fun other => (other, values other)) name value =
      (names.map fun other => (other, values other)) ++ [(name, [value])] := by
  induction names with
  | nil => rfl
  | cons first names ih =>
    obtain ⟨hfirst, hnames⟩ := List.ne_and_not_mem_of_not_mem_cons h
    rw [List.map_cons, push, if_neg (Ne.symm hfirst), ih hnames, List.cons_append]

theorem push_map_of_mem (hnodup : names.Nodup) (h : name ∈ names) (value : α) :
    Table.push (names.map fun other => (other, values other)) name value =
      names.map fun other =>
        (other, values other ++ if name = other then [value] else []) := by
  induction names with
  | nil => cases h
  | cons first names ih =>
    obtain ⟨hfirst, hnames⟩ := List.nodup_cons.mp hnodup
    rw [List.map_cons, push, List.map_cons]
    split
    next heq =>
      subst heq
      rw [if_pos rfl, List.cons.injEq]
      refine ⟨rfl, List.map_congr_left fun other hother => ?_⟩
      have hne : first ≠ other := fun heq => hfirst (heq ▸ hother)
      rw [if_neg hne, List.append_nil]
    next hne =>
      have hmem : name ∈ names := (List.mem_cons.mp h).resolve_left (Ne.symm hne)
      rw [ih hnames hmem, if_neg (Ne.symm hne), List.append_nil]

/-- Appending a value is collecting one entry more. -/
theorem push_collected (entries : List (String × α)) (name : String) (value : α) :
    (collected entries).push name value = collected (entries ++ [(name, value)]) := by
  rw [collected, collected, List.map_append, List.map_singleton, distinct_concat]
  split
  next hmem =>
    rw [push_map_of_mem (nodup_distinct _) (mem_distinct.mpr hmem)]
    refine List.map_congr_left fun other _ => ?_
    by_cases heq : name = other <;> simp [heq]
  next hnew =>
    rw [push_map_of_notMem (fun hmem => hnew (mem_distinct.mp hmem)), List.map_append,
      List.map_singleton]
    congr 1
    · refine List.map_congr_left fun other hother => ?_
      have hne : name ≠ other := fun heq => hnew (heq ▸ mem_distinct.mp hother)
      simp [hne]
    · have hnone : (entries.filter fun entry => decide (entry.1 = name)) = [] := by
        refine List.filter_eq_nil_iff.mpr fun entry hentry heq => ?_
        exact hnew (List.mem_map.mpr ⟨entry, hentry, of_decide_eq_true heq⟩)
      simp [hnone]

/-- **A table that is built by appending values** holds the values of all entries under their
names. -/
theorem foldl_push (entries : List (String × α)) :
    entries.foldl (fun table entry => push table entry.1 entry.2) [] = collected entries := by
  induction entries using List.reverseRecOn with
  | nil => rfl
  | append_singleton entries entry ih =>
    rw [List.foldl_append, ih, List.foldl_cons, List.foldl_nil, push_collected]

end Table

/-! ## The groups of operations -/

namespace Operation

theorem nodup_groups (operation : Operation) : operation.groups.Nodup := by
  rw [groups]
  split
  · exact List.nodup_singleton _
  · exact nodup_distinct _

theorem groups_ne_nil (operation : Operation) : operation.groups ≠ [] := by
  rw [groups]
  split
  · exact List.cons_ne_nil _ _
  next htags =>
    intro hnil
    obtain ⟨tag, htag⟩ := List.exists_mem_of_ne_nil operation.tags
      (fun hempty => htags (List.isEmpty_iff.mpr hempty))
    have hmem := mem_distinct.mpr htag
    rw [hnil] at hmem
    exact absurd hmem List.not_mem_nil

/-- An operation is entered once under each of its tags. -/
theorem filter_groups (operation : Operation) (tag : String) :
    ((operation.groups.map fun group => (group, operation)).filter fun entry => entry.1 = tag) =
      if tag ∈ operation.groups then [(tag, operation)] else [] := by
  rw [List.filter_map]
  show ((operation.groups.filter fun group => decide (group = tag)).map _) = _
  rw [List.filter_eq]
  split
  next hmem =>
    rw [List.count_eq_one_of_mem operation.nodup_groups hmem]
    rfl
  next hnew =>
    rw [List.count_eq_zero_of_not_mem hnew]
    rfl

/-- The operations that are entered under a tag are those that belong to it. -/
theorem filter_entries (operations : List Operation) (tag : String) :
    ((operations.flatMap fun operation =>
        operation.groups.map fun group => (group, operation)).filter
      fun entry => entry.1 = tag).map Prod.snd =
      operations.filter fun operation => tag ∈ operation.groups := by
  induction operations with
  | nil => rfl
  | cons operation operations ih =>
    rw [List.flatMap_cons, List.filter_append, List.map_append, ih, filter_groups,
      List.filter_cons]
    by_cases hmem : tag ∈ operation.groups <;> simp [hmem]

/-- **The groups of operations**: the tags in the order of their first appearance, each with the
operations that belong to it, in their order. -/
theorem byTag_eq (operations : List Operation) :
    byTag operations = (distinct (operations.flatMap groups)).map fun tag =>
      (tag, operations.filter fun operation => tag ∈ operation.groups) := by
  have hentries : byTag operations = Table.collected
      (operations.flatMap fun operation => operation.groups.map fun tag => (tag, operation)) := by
    rw [← Table.foldl_push, List.foldl_flatMap]
    simp only [List.foldl_map]
    rfl
  have hnames : ((operations.flatMap fun operation =>
      operation.groups.map fun tag => (tag, operation)).map Prod.fst) =
        operations.flatMap groups := by
    rw [List.map_flatMap]
    refine congrArg (fun f => operations.flatMap f) (funext fun operation => ?_)
    rw [List.map_map]
    exact List.map_id _
  rw [hentries, Table.collected, hnames]
  exact List.map_congr_left fun tag _ => by rw [filter_entries]

end Operation

end ApiScribe
