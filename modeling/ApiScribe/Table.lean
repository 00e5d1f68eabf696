/-!
# Tables in order of insertion

A table binds names to values and remembers the order in which the names came.  Documents,
groups of operations and sets of files are tables, because their order is visible in everything
that is written.  A table is the list of its bindings; in the tables that this library builds
every name is bound once.

`get?_put_self` and `get?_put_of_ne` say what `put` changes, and `names_put` that a name keeps the
place at which it was first bound.  Bindings of different names are put one behind the other
(`foldl_put`).
-/

namespace ApiScribe

/-- Names bound to values, in order of insertion. -/
abbrev Table (α : Type) := List (String × α)

namespace Table

variable {α : Type}

/-- The value of the first binding of a name. -/
def get? : Table α → String → Option α
  | [], _ => none
  | (key, value) :: rest, name => if key = name then some value else get? rest name

/-- The names in order. -/
def names (table : Table α) : List String :=
  table.map Prod.fst

/-- Bind a name: a name that is bound already keeps its place, a new one comes last. -/
def put : Table α → String → α → Table α
  | [], name, value => [(name, value)]
  | (key, old) :: rest, name, value =>
    if key = name then (key, value) :: rest else (key, old) :: put rest name value

/-- Append to the list that a name is bound to, binding the name if it is new. -/
def push : Table (List α) → String → α → Table (List α)
  | [], name, value => [(name, [value])]
  | (key, values) :: rest, name, value =>
    if key = name then (key, values ++ [value]) :: rest else (key, values) :: push rest name value

@[simp] theorem get?_nil (name : String) : get? ([] : Table α) name = none := rfl

theorem get?_put_self (table : Table α) (name : String) (value : α) :
    (table.put name value).get? name = some value := by
  induction table with
  | nil => simp [put, get?]
  | cons binding rest ih =>
    obtain ⟨key, old⟩ := binding
    by_cases h : key = name <;> simp [put, get?, h, ih]

theorem get?_put_of_ne (table : Table α) {name other : String} (value : α) (h : name ≠ other) :
    (table.put name value).get? other = table.get? other := by
  induction table with
  | nil => simp [put, get?, h]
  | cons binding rest ih =>
    obtain ⟨key, old⟩ := binding
    by_cases hk : key = name
    · subst hk; simp [put, get?, h]
    · simp [put, get?, hk, ih]

theorem names_put (table : Table α) (name : String) (value : α) :
    (table.put name value).names =
      if name ∈ table.names then table.names else table.names ++ [name] := by
  induction table with
  | nil => simp [put, names]
  | cons binding rest ih =>
    obtain ⟨key, old⟩ := binding
    by_cases h : key = name
    · subst h; simp [put, names]
    · have h' : ¬ name = key := fun e => h e.symm
      simp only [names] at ih
      by_cases hm : name ∈ rest.map Prod.fst <;> simp [put, names, h, h', hm, ih]

theorem put_of_notMem {table : Table α} {name : String} (h : name ∉ table.names) (value : α) :
    table.put name value = table ++ [(name, value)] := by
  induction table with
  | nil => rfl
  | cons binding rest ih =>
    have hne : binding.1 ≠ name := fun heq => h (heq ▸ List.mem_cons_self)
    have hrest : name ∉ names rest := fun hmem => h (List.mem_cons_of_mem _ hmem)
    rw [put, if_neg hne, ih hrest, List.cons_append]

/-- Bindings with different names that are new come after the bindings that are there. -/
theorem foldl_put {table entries : Table α} (h : (table.names ++ entries.names).Nodup) :
    entries.foldl (fun table entry => table.put entry.1 entry.2) table = table ++ entries := by
  induction entries generalizing table with
  | nil => rw [List.foldl_nil, List.append_nil]
  | cons entry entries ih =>
    have hnew : entry.1 ∉ table.names := fun hmem =>
      (List.nodup_append.mp h).2.2 entry.1 hmem entry.1 List.mem_cons_self rfl
    rw [List.foldl_cons, put_of_notMem hnew, ih, List.append_assoc, List.singleton_append]
    rw [names, List.map_append, List.append_assoc]
    exact h

end Table

end ApiScribe
