/-!
# First occurrences

`distinct` keeps the first occurrence of every element of a list, in order.  It is what a set that
remembers the order of insertion holds after the elements were put into it.
-/

namespace ApiScribe

variable {α : Type} [DecidableEq α]

/-- The elements of a list in order, each at its first occurrence only. -/
def distinct : List α → List α
  | [] => []
  | x :: xs => x :: (distinct xs).filter fun y => y ≠ x

@[simp] theorem mem_distinct {x : α} {xs : List α} : x ∈ distinct xs ↔ x ∈ xs := by
  induction xs with
  | nil => simp [distinct]
  | cons y ys ih => by_cases h : x = y <;> simp [distinct, h, ih]

theorem nodup_distinct (xs : List α) : (distinct xs).Nodup := by
  induction xs with
  | nil => simp [distinct]
  | cons x xs ih =>
    rw [distinct, List.nodup_cons]
    exact ⟨by simp, ih.sublist List.filter_sublist⟩

end ApiScribe
