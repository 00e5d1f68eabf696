import ApiScribe.Proofs.DocumentNames
import ApiScribe.Proofs.UnionBindings

/-!
# A document with one more schema

Two documents that differ in one more schema at the end: `Json.Gains` says so of their values, as a
change in one place that a path of names leads to.

Whatever a pointer finds *below* that place in the smaller value it finds in the larger one
(`Pointer.descend_gains`).  A pointer that is used as a type leads there, to a schema, so it has the
same name and the same shape in both documents (`Pointer.shapeName_gains`, `Pointer.resolve_gains`).
A pointer that ends above it is another matter: it leads to the object that has grown.

So the larger document is read like the smaller one and has one named schema more
(`Document.schemas_of_gains`), and unless that is a discriminated union it binds the same shapes
(`Binding.collect_gains`).
-/

namespace ApiScribe

/-- The second value is the first with one more member at the end of the object that the names lead
to.  A record of one field may be written as an array of it. -/
inductive Json.Gains (entry : String × Json) : List String → Json → Json → Prop
  | here (members : Table Json) : Gains entry [] (.object members) (.object (members ++ [entry]))
  | member {name : String} {path : List String} {before after : Table Json} {value grown : Json}
    (hfirst : name ∉ Table.names before) (h : Gains entry path value grown) :
    Gains entry (name :: path) (.object (before ++ (name, value) :: after))
      (.object (before ++ (name, grown) :: after))
  | only {name : String} {path : List String} {value grown : Json}
    (h : Gains entry path value grown) :
    Gains entry (name :: path) (.array [value]) (.array [grown])

/-! ## Looking up -/

namespace Table

variable {α : Type}

theorem get?_eq_none {table : Table α} {name : String} (h : name ∉ table.names) :
    table.get? name = none := by
  induction table with
  | nil => rfl
  | cons binding rest ih =>
    obtain ⟨hne, hrest⟩ := not_or.mp (mt List.mem_cons.mpr h)
    rw [get?, if_neg (Ne.symm hne), ih hrest]

theorem get?_middle {before : Table α} {name : String} (h : name ∉ before.names) (value : α)
    (after : Table α) : get? (before ++ (name, value) :: after) name = some value := by
  rw [get?_append, get?_eq_none h, Option.none_or, get?, if_pos rfl]

end Table

namespace Pointer

variable {entry : String × Json} {root grown : Json} {pointer name : String}

/-- **What is found below the place of a gain is found again.** -/
theorem descend_gains {path : List String} {value : Json}
    (h : Json.Gains entry path value grown) {step : String} {rest : List String} {found : Json}
    (hfound : descend pointer value (path ++ step :: rest) = .ok found) :
    descend pointer grown (path ++ step :: rest) = .ok found := by
  induction h with
  | here members =>
    rw [List.nil_append, descend] at hfound ⊢
    rw [Table.get?_append]
    cases hmember : Table.get? members step with
    | none =>
      rw [hmember] at hfound
      cases hfound
    | some member =>
      rw [hmember] at hfound
      exact hfound
  | @member name path before after value grown hfirst _ ih =>
    rw [List.cons_append, descend, Table.get?_middle hfirst] at hfound ⊢
    exact ih hfound
  | @only name path value grown _ ih =>
    rw [List.cons_append, descend] at hfound ⊢
    cases hindex : Numeral.below? indexBound name.toList with
    | none =>
      rw [hindex] at hfound
      cases hfound
    | some index =>
      rw [hindex] at hfound
      cases index with
      | zero => exact ih hfound
      | succ index => cases hfound

theorem shapeName_eq_ok :
    shapeName root pointer = .ok name ↔ steps pointer = .ok ["components", "schemas", name] ∧
      ∃ target, descend pointer root ["components", "schemas", name] = .ok target := by
  rw [shapeName, CompileError.bind_eq_ok]
  constructor
  · rintro ⟨path, hsteps, h⟩
    split at h
    next components schemas step =>
      split at h
      next hplace =>
        obtain ⟨rfl, rfl⟩ := hplace
        obtain ⟨target, htarget, hname⟩ := CompileError.bind_eq_ok.mp h
        obtain rfl := Except.ok.inj hname
        obtain ⟨path, hpath, htarget⟩ := CompileError.bind_eq_ok.mp htarget
        obtain rfl := Except.ok.inj (hsteps.symm.trans hpath)
        exact ⟨hsteps, target, htarget⟩
      next => cases h
    next => cases h
  · rintro ⟨hsteps, target, htarget⟩
    refine ⟨_, hsteps, ?_⟩
    have hlookup : lookup root pointer = .ok target :=
      CompileError.bind_eq_ok.mpr ⟨_, hsteps, htarget⟩
    simp only [and_self, if_true, hlookup]
    rfl

/-- A pointer that is used as a type names the same shape when there is one schema more. -/
theorem shapeName_gains (h : Json.Gains entry ["components", "schemas"] root grown)
    (hname : shapeName root pointer = .ok name) : shapeName grown pointer = .ok name := by
  obtain ⟨hsteps, target, htarget⟩ := shapeName_eq_ok.mp hname
  have hgrown : descend pointer grown (["components", "schemas"] ++ [name]) = .ok target :=
    descend_gains h htarget
  exact shapeName_eq_ok.mpr ⟨hsteps, target, hgrown⟩

/-- It also leads to the same shape. -/
theorem resolve_gains (h : Json.Gains entry ["components", "schemas"] root grown)
    (hname : shapeName root pointer = .ok name) : resolve grown pointer = resolve root pointer := by
  obtain ⟨hsteps, target, htarget⟩ := shapeName_eq_ok.mp hname
  have hgrown : descend pointer grown (["components", "schemas"] ++ [name]) = .ok target :=
    descend_gains h htarget
  have hlookup : lookup grown pointer = lookup root pointer :=
    (CompileError.bind_eq_ok.mpr ⟨_, hsteps, hgrown⟩ : lookup grown pointer = .ok target).trans
      (CompileError.bind_eq_ok.mpr ⟨_, hsteps, htarget⟩).symm
  rw [resolve, resolve, lookupAs, lookupAs, hlookup]

end Pointer

/-! ## Reading the larger document -/

namespace Document

/-- Where the named schemas are read from, in either notation of the record around them. -/
theorem schemas?_eq_tableOf? {fields record members : Table Json} {components : Json}
    (hcomponents : fields.get? "components" = some components)
    (hrecord : components.record? ["schemas"] 1 = some record)
    (hschemas : record.get? "schemas" = some (.object members)) :
    schemas? fields = Json.tableOf? Schema.ofJson? (.object members) := by
  have hfield : Json.optionalField? record "schemas" (Json.tableOf? Schema.ofJson?) =
      (Json.tableOf? Schema.ofJson? (.object members)).map some := by
    rw [Json.optionalField?, hschemas]
  rw [schemas?, Json.optionalField?, hcomponents]
  cases components with
  | null => cases hrecord
  | _ =>
    simp only [hrecord, hfield, Option.bind_eq_bind, Option.bind_some, Option.pure_def]
    cases Json.tableOf? Schema.ofJson? (.object members) <;> rfl

theorem tableOf?_append {α : Type} {decode : Json → Option α} {members : Table Json}
    {entry : String × Json} {table grown : Table α}
    (h : Json.tableOf? decode (.object members) = some table)
    (hgrown : Json.tableOf? decode (.object (members ++ [entry])) = some grown) :
    ∃ value, decode entry.2 = some value ∧ grown = table ++ [(entry.1, value)] := by
  rw [Json.tableOf?] at h hgrown
  simp only [List.mapM_append, h, List.mapM_cons, List.mapM_nil, Option.bind_eq_bind,
    Option.bind_some, Option.pure_def, Option.bind_eq_some_iff, Option.some.injEq,
    Option.map_eq_some_iff] at hgrown
  obtain ⟨_, ⟨_, ⟨value, hvalue, rfl⟩, rfl⟩, rfl⟩ := hgrown
  exact ⟨value, hvalue, rfl⟩

variable {entry : String × Json} {root grown : Json} {smaller larger : Document}

/-- **The larger document has one named schema more**, behind those of the smaller one. -/
theorem schemas_of_gains (h : Json.Gains entry ["components", "schemas"] root grown)
    (hsmaller : ofJson root = .ok smaller) (hlarger : ofJson grown = .ok larger) :
    ∃ schema, Schema.ofJson? entry.2 = some schema ∧
      larger.schemas = smaller.schemas ++ [(entry.1, schema)] := by
  obtain ⟨-, fields, hroot, hschemas⟩ := schemas?_of_ofJson hsmaller
  obtain ⟨-, fields', hgrown, hschemas'⟩ := schemas?_of_ofJson hlarger
  cases h with
  | only => cases hroot
  | @member _ _ before after components components' hfirst hinner =>
    cases hroot
    cases hgrown
    have hcomponents := Table.get?_middle hfirst components after
    have hcomponents' := Table.get?_middle hfirst components' after
    have hread : ∀ {record record' members : Table Json},
        components.record? ["schemas"] 1 = some record →
        components'.record? ["schemas"] 1 = some record' →
        record.get? "schemas" = some (.object members) →
        record'.get? "schemas" = some (.object (members ++ [entry])) →
        ∃ schema, Schema.ofJson? entry.2 = some schema ∧
          larger.schemas = smaller.schemas ++ [(entry.1, schema)] := by
      intro record record' members hrecord hrecord' hmembers hmembers'
      rw [schemas?_eq_tableOf? hcomponents hrecord hmembers] at hschemas
      rw [schemas?_eq_tableOf? hcomponents' hrecord' hmembers'] at hschemas'
      exact tableOf?_append hschemas hschemas'
    cases hinner with
    | member hfirst hinner =>
      cases hinner
      exact hread rfl rfl (Table.get?_middle hfirst _ _) (Table.get?_middle hfirst _ _)
    | only hinner =>
      cases hinner
      exact hread rfl rfl rfl rfl

theorem namedShapes_of_gains (h : Json.Gains entry ["components", "schemas"] root grown)
    (hsmaller : ofJson root = .ok smaller) (hlarger : ofJson grown = .ok larger) :
    ∃ shape, Shape.ofJson? entry.2 = some shape ∧
      larger.namedShapes = smaller.namedShapes ++ [⟨entry.1, shape⟩] := by
  obtain ⟨schema, hschema, heq⟩ := schemas_of_gains h hsmaller hlarger
  refine ⟨Shape.ofSchema schema, by rw [Shape.ofJson?, hschema, Option.map_some], ?_⟩
  rw [namedShapes, namedShapes, heq, List.map_append, List.map_singleton]

end Document

/-! ## Bindings of the larger document -/

namespace Binding

variable {root grown : Json}

variable (hnames : ∀ {pointer name}, Pointer.shapeName root pointer = .ok name →
  Pointer.shapeName grown pointer = .ok name)
include hnames

theorem mappedLiterals_gains {mapping mapped : List (String × String)}
    (h : mappedLiterals root mapping = .ok mapped) : mappedLiterals grown mapping = .ok mapped := by
  induction mapping generalizing mapped with
  | nil => exact h
  | cons entry mapping ih =>
    simp only [mappedLiterals, CompileError.bind_eq_ok] at h ⊢
    obtain ⟨name, hname, others, hothers, h⟩ := h
    exact ⟨name, hnames hname, others, ih hothers, h⟩

theorem claimMembers_gains {property : String} {mapped : List (String × String)}
    {bindings after : Table Binding} {members : List Shape}
    (h : claimMembers root property mapped bindings members = .ok after) :
    claimMembers grown property mapped bindings members = .ok after := by
  induction members generalizing bindings with
  | nil => exact h
  | cons member members ih =>
    rw [claimMembers.eq_def] at h ⊢
    simp only at h ⊢
    split at h
    next pointer hkind =>
      simp only [CompileError.bind_eq_ok] at h ⊢
      obtain ⟨variant, hvariant, between, hclaim, h⟩ := h
      exact ⟨variant, hnames hvariant, between, hclaim, ih h⟩
    next => exact ih h

theorem claimShape_gains {bindings after : Table Binding} {shape : Shape}
    (h : claimShape root bindings shape = .ok after) :
    claimShape grown bindings shape = .ok after := by
  rw [claimShape.eq_def] at h ⊢
  split at h
  next => exact h
  next members discriminator _ hkind =>
    simp only [CompileError.bind_eq_ok] at h ⊢
    obtain ⟨mapped, hmapped, h⟩ := h
    exact ⟨mapped, mappedLiterals_gains hnames hmapped, claimMembers_gains hnames h⟩
  next => exact h

theorem claimShapes_gains {bindings after : Table Binding} {shapes : List NamedShape}
    {added : NamedShape} (hadded : added.shape.isDiscriminated = false)
    (h : claimShapes root bindings shapes = .ok after) :
    claimShapes grown bindings (shapes ++ [added]) = .ok after := by
  induction shapes generalizing bindings with
  | nil =>
    rw [List.nil_append, claimShapes, claimShape_eq hadded]
    exact h
  | cons named shapes ih =>
    simp only [List.cons_append, claimShapes, CompileError.bind_eq_ok] at h ⊢
    obtain ⟨between, hnamed, h⟩ := h
    exact ⟨between, claimShape_gains hnames hnamed, ih h⟩

end Binding

/-- **The larger document binds the same shapes**, unless what it has more is a discriminated union. -/
theorem Binding.collect_gains {entry : String × Json} {root grown : Json}
    (h : Json.Gains entry ["components", "schemas"] root grown) {shapes : List NamedShape}
    {added : NamedShape} (hadded : added.shape.isDiscriminated = false) {bindings : Table Binding}
    (hcollect : collect root shapes = .ok bindings) :
    collect grown (shapes ++ [added]) = .ok bindings :=
  claimShapes_gains (Pointer.shapeName_gains h) hadded hcollect

end ApiScribe
