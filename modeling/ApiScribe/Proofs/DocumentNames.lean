import ApiScribe.Document.Text
import Mathlib.Data.List.Forall2
import Mathlib.Data.List.Nodup

/-!
# The names in a document

A text may name a member of an object twice, but the value that is read from it does not: whatever
the notation, every object inside that value has its names once (`Json.Merged`).

Two consequences are used everywhere below.  The named shapes of a document have different names
(`namedShapes_nodup`), and a pointer that is used as a type leads to the named shape of that name
(`exists_namedShape`), although it is followed in the value and not among the shapes.
-/

namespace ApiScribe

namespace Table

variable {α : Type}

theorem nodup_put {table : Table α} (h : table.names.Nodup) (name : String) (value : α) :
    (table.put name value).names.Nodup := by
  rw [names_put]
  split
  next => exact h
  next hnew =>
    rw [← List.concat_eq_append]
    exact h.concat hnew

theorem mem_put {table : Table α} {name : String} {value : α} {binding : String × α}
    (h : binding ∈ table.put name value) : binding ∈ table ∨ binding.2 = value := by
  induction table with
  | nil =>
    rw [List.mem_singleton.mp h]
    exact Or.inr rfl
  | cons first rest ih =>
    obtain ⟨key, old⟩ := first
    rw [put] at h
    split at h
    · rcases List.mem_cons.mp h with rfl | h
      · exact Or.inr rfl
      · exact Or.inl (List.mem_cons_of_mem _ h)
    · rcases List.mem_cons.mp h with rfl | h
      · exact Or.inl List.mem_cons_self
      · exact (ih h).imp_left (List.mem_cons_of_mem _)

theorem mem_of_get? {table : Table α} {name : String} {value : α}
    (h : table.get? name = some value) : (name, value) ∈ table := by
  induction table with
  | nil => cases h
  | cons binding rest ih =>
    obtain ⟨key, old⟩ := binding
    rw [get?] at h
    split at h
    next heq =>
      cases h
      rw [heq]
      exact List.mem_cons_self
    next => exact List.mem_cons_of_mem _ (ih h)

/-- In a table that binds no name twice, a name is looked up as what it is bound to. -/
theorem get?_eq_some_iff {table : Table α} (h : table.names.Nodup) {name : String} {value : α} :
    table.get? name = some value ↔ (name, value) ∈ table := by
  refine ⟨mem_of_get?, fun hmem => ?_⟩
  induction table with
  | nil => cases hmem
  | cons entry table ih =>
    obtain ⟨key, other⟩ := entry
    obtain ⟨hkey, hrest⟩ := List.nodup_cons.mp h
    rcases List.mem_cons.mp hmem with heq | hmem
    · obtain ⟨rfl, rfl⟩ := Prod.mk.inj heq
      exact if_pos rfl
    · have hlater : name ∈ table.map Prod.fst := List.mem_map_of_mem hmem
      have hne : key ≠ name := by
        rintro rfl
        exact hkey hlater
      rw [get?, if_neg hne]
      exact ih hrest hmem

/-- The table that is decoded from a table, binding by binding. -/
theorem forall₂_of_tableOf? {decode : Json → Option α} {members : Table Json} {table : Table α}
    (h : Json.tableOf? decode (.object members) = some table) :
    List.Forall₂ (fun member binding => member.1 = binding.1 ∧ decode member.2 = some binding.2)
      members table := by
  rw [Json.tableOf?] at h
  induction members generalizing table with
  | nil =>
    cases h
    exact List.Forall₂.nil
  | cons member members ih =>
    simp only [List.mapM_cons, Option.bind_eq_bind, Option.bind_eq_some_iff, Option.pure_def,
      Option.some.injEq, Option.map_eq_some_iff] at h
    obtain ⟨_, ⟨value, hvalue, rfl⟩, others, hothers, rfl⟩ := h
    exact List.Forall₂.cons ⟨rfl, hvalue⟩ (ih hothers)

theorem names_of_tableOf? {decode : Json → Option α} {members : Table Json} {table : Table α}
    (h : Json.tableOf? decode (.object members) = some table) : table.names = members.names := by
  have hall := forall₂_of_tableOf? h
  clear h
  induction hall with
  | nil => rfl
  | cons hhead _ ih => exact congrArg₂ List.cons hhead.1.symm ih

theorem exists_mem_of_tableOf? {decode : Json → Option α} {members : Table Json} {table : Table α}
    (h : Json.tableOf? decode (.object members) = some table) {member : String × Json}
    (hmember : member ∈ members) :
    ∃ decoded, (member.1, decoded) ∈ table ∧ decode member.2 = some decoded := by
  have hall := forall₂_of_tableOf? h
  clear h
  induction hall with
  | nil => cases hmember
  | @cons first binding members table hhead _ ih =>
    obtain ⟨hname, hvalue⟩ := hhead
    rcases List.mem_cons.mp hmember with rfl | hmember
    · refine ⟨binding.2, ?_, hvalue⟩
      rw [hname]
      exact List.mem_cons_self
    · obtain ⟨decoded, hdecoded, hvalue⟩ := ih hmember
      exact ⟨decoded, List.mem_cons_of_mem _ hdecoded, hvalue⟩

end Table

/-! ## Objects without repeated names -/

namespace Json

/-- Every object inside the value has each of its names once. -/
inductive Merged : Json → Prop
  | null : Merged .null
  | boolean (value : Bool) : Merged (.boolean value)
  | number (value : JsonNumber) : Merged (.number value)
  | string (value : String) : Merged (.string value)
  | array {items : List Json} (hitems : ∀ item ∈ items, Merged item) : Merged (.array items)
  | object {members : Table Json} (hnames : members.names.Nodup)
    (hmembers : ∀ member ∈ members, Merged member.2) : Merged (.object members)

theorem Merged.names {members : Table Json} (h : Merged (.object members)) :
    members.names.Nodup := by
  cases h with
  | object hnames _ => exact hnames

theorem Merged.get? {members : Table Json} (h : Merged (.object members)) {name : String}
    {value : Json} (hvalue : members.get? name = some value) : Merged value := by
  cases h with
  | object _ hmembers => exact hmembers _ (Table.mem_of_get? hvalue)

/-- A member that is put into a merged object leaves it merged. -/
theorem Merged.put {members : Table Json} (h : Merged (.object members)) (name : String)
    {value : Json} (hvalue : Merged value) : Merged (.object (members.put name value)) := by
  cases h with
  | object hnames hmembers =>
    refine Merged.object (Table.nodup_put hnames name value) ?_
    intro member hmember
    rcases Table.mem_put hmember with hold | hnew
    · exact hmembers member hold
    · rw [hnew]
      exact hvalue

theorem merged_empty : Merged (.object []) :=
  Merged.object List.nodup_nil fun _ h => absurd h List.not_mem_nil

mutual

/-- **Merging leaves no repeated names**, at any depth. -/
theorem merged_merge : ∀ value, Merged (merge value)
  | .null => Merged.null
  | .boolean value => Merged.boolean value
  | .number value => Merged.number value
  | .string value => Merged.string value
  | .array items => Merged.array (merged_mergeItems items)
  | .object members => merged_mergeMembers merged_empty members

theorem merged_mergeItems : ∀ items, ∀ item ∈ mergeItems items, Merged item
  | [] => fun _ h => absurd h List.not_mem_nil
  | value :: rest => List.forall_mem_cons.mpr ⟨merged_merge value, merged_mergeItems rest⟩

theorem merged_mergeMembers {done : Table Json} (hdone : Merged (.object done)) :
    ∀ members, Merged (.object (mergeMembers done members))
  | [] => hdone
  | (name, value) :: rest => merged_mergeMembers (hdone.put name (merged_merge value)) rest

end

theorem merged_of_read? {text : String} {value : Json} (h : read? text = some value) :
    Merged value := by
  rw [read?] at h
  obtain ⟨source, -, rfl⟩ := Option.map_eq_some_iff.mp h
  exact merged_merge source

end Json

namespace Yaml.Value

mutual

/-- **Mappings become merged objects**: of entries whose keys get the same name the last one
counts. -/
theorem merged_of_toJson? : ∀ {value : Value} {json : Json}, toJson? value = some json → json.Merged
  | .null, _, h => by
    cases h
    exact Json.Merged.null
  | .boolean value, _, h => by
    cases h
    exact Json.Merged.boolean value
  | .integer value, _, h => by
    cases h
    exact Json.Merged.number _
  | .float value, _, h => by
    rw [toJson?] at h
    split at h <;> cases h
    · exact Json.Merged.number _
    · exact Json.Merged.null
  | .string value, _, h => by
    cases h
    exact Json.Merged.string value
  | .sequence items, _, h => by
    rw [toJson?] at h
    obtain ⟨items, hitems, rfl⟩ := Option.map_eq_some_iff.mp h
    exact Json.Merged.array (merged_of_itemsToJson? hitems)
  | .mapping entries, _, h => by
    rw [toJson?] at h
    obtain ⟨members, hmembers, rfl⟩ := Option.map_eq_some_iff.mp h
    exact merged_of_entriesToJson? Json.merged_empty hmembers
  | .tagged tag value, _, h => by
    rw [toJson?] at h
    obtain ⟨inner, hinner, rfl⟩ := Option.map_eq_some_iff.mp h
    exact Json.Merged.object (List.nodup_singleton _)
      (List.forall_mem_singleton.mpr (merged_of_toJson? hinner))

theorem merged_of_itemsToJson? : ∀ {items : List Value} {values : List Json},
    itemsToJson? items = some values → ∀ value ∈ values, value.Merged
  | [], _, h => by
    cases h
    exact fun _ hmem => absurd hmem List.not_mem_nil
  | item :: items, _, h => by
    rw [itemsToJson?] at h
    simp only [Option.bind_eq_bind, Option.bind_eq_some_iff, Option.pure_def,
      Option.some.injEq] at h
    obtain ⟨value, hvalue, values, hvalues, rfl⟩ := h
    exact List.forall_mem_cons.mpr ⟨merged_of_toJson? hvalue, merged_of_itemsToJson? hvalues⟩

theorem merged_of_entriesToJson? {done : Table Json} (hdone : (Json.object done).Merged) :
    ∀ {entries : List (Value × Value)} {members : Table Json},
      entriesToJson? done entries = some members → (Json.object members).Merged
  | [], _, h => by
    cases h
    exact hdone
  | (key, value) :: entries, _, h => by
    rw [entriesToJson?] at h
    simp only [Option.bind_eq_bind, Option.bind_eq_some_iff] at h
    obtain ⟨name, -, value, hvalue, h⟩ := h
    exact merged_of_entriesToJson? (hdone.put name (merged_of_toJson? hvalue)) h

end

end Yaml.Value

/-! ## Pointers to named schemas -/

namespace Pointer

/-- A step of a pointer that is a name leads into an object, to the member of that name. -/
theorem descend_cons_eq_ok {pointer step : String} {value target : Json} {rest : List String}
    (hstep : Numeral.below? indexBound step.toList = none)
    (h : descend pointer value (step :: rest) = .ok target) :
    ∃ (members : Table Json) (member : Json), value = .object members ∧
      members.get? step = some member ∧ descend pointer member rest = .ok target := by
  cases value with
  | object members =>
    rw [descend] at h
    split at h
    next member hmember => exact ⟨members, member, rfl, hmember, h⟩
    next => cases h
  | array items =>
    rw [descend, hstep] at h
    cases h
  | _ => cases h

/-- Where a pointer leads that is used as a type. -/
theorem descend_of_shapeName {root : Json} {pointer name : String}
    (h : shapeName root pointer = .ok name) :
    ∃ target, lookup root pointer = .ok target ∧
      descend pointer root ["components", "schemas", name] = .ok target := by
  rw [shapeName] at h
  cases hsteps : steps pointer with
  | error error =>
    rw [hsteps] at h
    cases h
  | ok steps =>
    rw [hsteps] at h
    simp only [bind, Except.bind] at h
    split at h
    next components schemas step =>
      split at h
      next hplace =>
        obtain ⟨rfl, rfl⟩ := hplace
        split at h
        · cases h
        next target htarget =>
          cases h
          refine ⟨target, htarget, ?_⟩
          rw [lookup, hsteps] at htarget
          exact htarget
      next => cases h
    next => cases h

end Pointer

/-! ## Documents that were read -/

namespace Document

/-- What is known of a document that was read: its value has no repeated names, and everything else
was read from that value. -/
structure WasRead (document : Document) : Prop where
  merged : document.root.Merged
  ofJson : Document.ofJson document.root = .ok document

theorem layout?_of_ofJson {root : Json} {document : Document} (h : ofJson root = .ok document) :
    ∃ fields version, root = .object fields ∧ layout? root version = some document := by
  rw [ofJson] at h
  split at h
  · cases h
  next version hversion =>
    split at h
    · cases h
    · split at h
      · cases h
      · split at h
        next hlayout =>
          cases h
          cases root with
          | object fields => exact ⟨fields, version, rfl, hlayout⟩
          | _ => cases hversion
        next => cases h

/-- The named schemas of a document are read from the fields of its value, and the value stays. -/
theorem schemas?_of_ofJson {root : Json} {document : Document} (h : ofJson root = .ok document) :
    document.root = root ∧
      ∃ fields, root = .object fields ∧ schemas? fields = some document.schemas := by
  obtain ⟨fields, version, rfl, hlayout⟩ := layout?_of_ofJson h
  simp only [layout?, Option.bind_eq_bind, Option.bind_eq_some_iff, Option.pure_def,
    Option.some.injEq] at hlayout
  obtain ⟨_, hfields, _, _, schemas, hschemas, rfl⟩ := hlayout
  cases hfields
  exact ⟨rfl, fields, rfl, hschemas⟩

theorem wasRead_of_ofJson {root : Json} {document : Document} (hmerged : root.Merged)
    (h : Document.ofJson root = .ok document) : document.WasRead := by
  obtain ⟨hroot, -⟩ := schemas?_of_ofJson h
  constructor
  · rw [hroot]
    exact hmerged
  · rw [hroot]
    exact h

/-- **Both notations give documents without repeated names.** -/
theorem wasRead_of_readAs {format : Notation} {text : String} {document : Document}
    (h : readAs format text = .ok document) : document.WasRead := by
  rw [readAs.eq_def] at h
  split at h
  · split at h
    next hroot => exact wasRead_of_ofJson (Json.merged_of_read? hroot) h
    next => cases h
  · split at h
    · cases h
    · split at h
      next hroot => exact wasRead_of_ofJson (Yaml.Value.merged_of_toJson? hroot) h
      next => cases h

/-- Does a text spell a document that passes a check? -/
def reads (format : Notation) (text : String) (check : Document → Bool) : Bool :=
  match readAs format text with
  | .error _ => false
  | .ok document => check document

theorem exists_of_reads {format : Notation} {text : String} {check : Document → Bool}
    (h : reads format text check = true) :
    ∃ document, readAs format text = .ok document ∧ check document = true := by
  rw [reads] at h
  split at h
  · cases h
  next document hread => exact ⟨document, hread, h⟩

/-! ## Named shapes -/

/-- A record inside a merged value has merged fields, in either of its notations. -/
theorem merged_of_record? {names : List String} {least : Nat} {value field : Json}
    {fields : Table Json} (hmerged : value.Merged)
    (h : value.record? names least = some fields) {name : String}
    (hfield : fields.get? name = some field) : field.Merged := by
  rw [Json.record?.eq_def] at h
  split at h
  · cases h
    exact hmerged.get? hfield
  · split at h
    · cases h
      cases hmerged with
      | array hitems => exact hitems field (List.of_mem_zip (Table.mem_of_get? hfield)).2
    · cases h
  · cases h

/-- The field of a record that is read is absent, null, or decoded. -/
theorem optionalField?_cases {α : Type} {fields : Table Json} {name : String}
    {decode : Json → Option α} {field : Option α}
    (h : Json.optionalField? fields name decode = some field) :
    field = none ∨ ∃ value decoded, fields.get? name = some value ∧
      decode value = some decoded ∧ field = some decoded := by
  rw [Json.optionalField?] at h
  split at h
  · cases h
    exact Or.inl rfl
  · cases h
    exact Or.inl rfl
  next value _ hvalue =>
    obtain ⟨decoded, hdecoded, rfl⟩ := Option.map_eq_some_iff.mp h
    exact Or.inr ⟨value, decoded, hvalue, hdecoded, rfl⟩

/-- The named schemas are read from one merged object, if there are any. -/
theorem schemas?_cases {fields : Table Json} {schemas : Table Schema}
    (hmerged : (Json.object fields).Merged) (h : schemas? fields = some schemas) :
    schemas = [] ∨ ∃ members, (Json.object members).Merged ∧
      Json.tableOf? Schema.ofJson? (.object members) = some schemas := by
  simp only [schemas?, Option.bind_eq_bind, Option.bind_eq_some_iff, Option.pure_def,
    Option.some.injEq] at h
  obtain ⟨components, hcomponents, rfl⟩ := h
  rcases optionalField?_cases hcomponents with rfl | ⟨value, decoded, hvalue, hdecoded, rfl⟩
  · exact Or.inl rfl
  · simp only [Option.bind_eq_some_iff, Option.some.injEq] at hdecoded
    obtain ⟨record, hrecord, named, hnamed, rfl⟩ := hdecoded
    rcases optionalField?_cases hnamed with rfl | ⟨object, decoded, hobject, hdecoded, rfl⟩
    · exact Or.inl rfl
    · cases object with
      | object members =>
        exact Or.inr
          ⟨members, merged_of_record? (hmerged.get? hvalue) hrecord hobject, hdecoded⟩
      | _ => cases hdecoded

/-- **Named shapes have different names.** -/
theorem WasRead.namedShapes_nodup {document : Document} (h : document.WasRead) :
    (document.namedShapes.map NamedShape.name).Nodup := by
  obtain ⟨-, fields, hroot, hschemas⟩ := schemas?_of_ofJson h.ofJson
  have hnames : document.namedShapes.map NamedShape.name = document.schemas.names := by
    rw [namedShapes, List.map_map]
    rfl
  rw [hnames]
  rcases schemas?_cases (hroot ▸ h.merged) hschemas with hnil | ⟨members, hmembers, htable⟩
  · rw [hnil]
    exact List.nodup_nil
  · rw [Table.names_of_tableOf? htable]
    exact hmembers.names

/-- The named schemas are those of the member `schemas` of the member `components`. -/
theorem tableOf?_of_schemas? {fields components : Table Json} {value : Json}
    {schemas : Table Schema} (hcomponents : fields.get? "components" = some (.object components))
    (hvalue : components.get? "schemas" = some value) (hnull : value ≠ .null)
    (h : schemas? fields = some schemas) : Json.tableOf? Schema.ofJson? value = some schemas := by
  have hnamed : Json.optionalField? components "schemas" (Json.tableOf? Schema.ofJson?) =
      (Json.tableOf? Schema.ofJson? value).map some := by
    rw [Json.optionalField?, hvalue]
    cases value with
    | null => exact absurd rfl hnull
    | _ => rfl
  simp only [schemas?, Json.optionalField?, hcomponents, Json.record?, Option.bind_eq_bind,
    Option.bind_some] at h
  rw [Json.optionalField?] at hnamed
  rw [hnamed] at h
  cases htable : Json.tableOf? Schema.ofJson? value with
  | none =>
    rw [htable] at h
    cases h
  | some table =>
    rw [htable] at h
    exact h

/-- **A pointer that is used as a type leads to a named shape**, and the shape that is read where it
leads is the one that was named. -/
theorem WasRead.exists_namedShape {document : Document} (h : document.WasRead)
    {pointer name : String}
    (hname : Pointer.shapeName document.root pointer = .ok name) :
    ∃ shape, ⟨name, shape⟩ ∈ document.namedShapes ∧
      Pointer.resolve document.root pointer = .ok shape := by
  obtain ⟨-, fields, hroot, hschemas⟩ := schemas?_of_ofJson h.ofJson
  obtain ⟨target, hlookup, hdescend⟩ := Pointer.descend_of_shapeName hname
  obtain ⟨_, inner, hfields, hinner, hdescend⟩ :=
    Pointer.descend_cons_eq_ok (by decide +kernel) hdescend
  obtain rfl := Json.object.inj (hroot.symm.trans hfields)
  obtain ⟨components, value, rfl, hvalue, hdescend⟩ :=
    Pointer.descend_cons_eq_ok (by decide +kernel) hdescend
  have hnull : value ≠ .null := by
    rintro rfl
    cases hdescend
  have htable := tableOf?_of_schemas? hinner hvalue hnull hschemas
  cases value with
  | object members =>
    rw [Pointer.descend] at hdescend
    split at hdescend
    next member hmember =>
      cases hdescend
      obtain ⟨schema, hschema, hread⟩ :=
        Table.exists_mem_of_tableOf? htable (Table.mem_of_get? hmember)
      refine ⟨Shape.ofSchema schema, List.mem_map.mpr ⟨(name, schema), hschema, rfl⟩, ?_⟩
      simp only [Pointer.resolve, Pointer.lookupAs, hlookup, bind, Except.bind, Shape.ofJson?]
      rw [hread]
      rfl
    next => cases hdescend
  | _ => cases htable

end Document

end ApiScribe
