import ApiScribe.Schema.OfJson

/-!
# What schemas are read from

The reader of schemas goes down a JSON value and comes by a schema at every object and every array.  A
property of schemas that the empty schema has, and that no field takes away, is therefore a property of
every schema that is read.  `Schema.readsAs` is this induction: about a field it has to be shown only
that the property is kept when the parts of the field's value are read as schemas with the property.

`Q` restricts the values from which schemas are read; it has to hold of the parts of such a value too.
-/

namespace ApiScribe

/-- A value is directly inside another one. -/
inductive Json.HasPart : Json → Json → Prop
  | item {items : List Json} {item : Json} (hmem : item ∈ items) : HasPart (.array items) item
  | member {members : List (String × Json)} {member : String × Json} (hmem : member ∈ members) :
    HasPart (.object members) member.2

theorem Json.HasPart.sizeOf_lt {value part : Json} (h : value.HasPart part) :
    sizeOf part < sizeOf value := by
  cases h with
  | item hmem =>
    have hlt := List.sizeOf_lt_of_mem hmem
    rw [Json.array.sizeOf_spec]
    omega
  | @member members member hmem =>
    obtain ⟨name, value⟩ := member
    have hlt := List.sizeOf_lt_of_mem hmem
    rw [Prod.mk.sizeOf_spec] at hlt
    rw [Json.object.sizeOf_spec]
    dsimp only
    omega

namespace Schema

variable {P : Schema → Prop} {Q : Json → Prop}

/-- Reading the value, as a whole or as a field, gives schemas with the property. -/
structure ReadsAs (P : Schema → Prop) (value : Json) : Prop where
  whole : ∀ {schema}, ofJson? value = some schema → P schema
  field : ∀ {schema after name}, P schema → readField schema name value = some after → P after

variable {schema after : Schema}

/-! ## Lists of values -/

theorem forall_of_ofItems? {items : List Json} {schemas : List Schema}
    (hitems : ∀ item ∈ items, ReadsAs P item) (h : ofItems? items = some schemas) :
    ∀ schema ∈ schemas, P schema := by
  induction items generalizing schemas with
  | nil =>
    obtain rfl := Option.some.inj h
    exact fun _ hmem => absurd hmem List.not_mem_nil
  | cons item items ih =>
    obtain ⟨hitem, hitems⟩ := List.forall_mem_cons.mp hitems
    rw [ofItems?.eq_def] at h
    dsimp only at h
    split at h
    next first others hfirst hothers =>
      obtain rfl := Option.some.inj h
      exact List.forall_mem_cons.mpr ⟨hitem.whole hfirst, ih hitems hothers⟩
    next => cases h

theorem forall_of_ofMembers? {members : List (String × Json)} {entries : List (String × Schema)}
    (hmembers : ∀ member ∈ members, ReadsAs P member.2) (h : ofMembers? members = some entries) :
    ∀ entry ∈ entries, P entry.2 := by
  induction members generalizing entries with
  | nil =>
    obtain rfl := Option.some.inj h
    exact fun _ hmem => absurd hmem List.not_mem_nil
  | cons member members ih =>
    obtain ⟨name, value⟩ := member
    obtain ⟨hmember, hmembers⟩ := List.forall_mem_cons.mp hmembers
    rw [ofMembers?.eq_def] at h
    dsimp only at h
    split at h
    next first others hfirst hothers =>
      obtain rfl := Option.some.inj h
      exact List.forall_mem_cons.mpr ⟨hmember.whole hfirst, ih hmembers hothers⟩
    next => cases h

theorem of_readMembers {members : List (String × Json)} (hschema : P schema)
    (hmembers : ∀ member ∈ members, ReadsAs P member.2)
    (h : readMembers schema members = some after) : P after := by
  induction members generalizing schema with
  | nil =>
    obtain rfl := Option.some.inj h
    exact hschema
  | cons member members ih =>
    obtain ⟨hmember, hmembers⟩ := List.forall_mem_cons.mp hmembers
    rw [readMembers.eq_def] at h
    dsimp only at h
    split at h
    next between hbetween => exact ih (hmember.field hschema hbetween) hmembers h
    next => cases h

theorem of_readItems {names : List String} {items : List Json} (hschema : P schema)
    (hitems : ∀ item ∈ items, ReadsAs P item) (h : readItems schema names items = some after) :
    P after := by
  induction items generalizing schema names with
  | nil =>
    rw [readItems] at h
    split at h
    next =>
      obtain rfl := Option.some.inj h
      exact hschema
    next => cases h
  | cons item items ih =>
    obtain ⟨hitem, hitems⟩ := List.forall_mem_cons.mp hitems
    rw [readItems.eq_def] at h
    dsimp only at h
    split at h
    next => cases h
    next =>
      split at h
      next between hbetween => exact ih (hitem.field hschema hbetween) hitems h
      next => cases h

/-! ## Fields -/

/-- A field that is null leaves the schema as it is. -/
theorem of_setField {α : Type} {decode : Json → Option α} {set : α → Schema} {value : Json}
    (hschema : P schema) (hset : ∀ x, value ≠ .null → decode value = some x → P (set x))
    (h : setField schema decode set value = some after) : P after := by
  rw [setField.eq_def] at h
  split at h
  next =>
    obtain rfl := Option.some.inj h
    exact hschema
  next hvalue =>
    obtain ⟨x, hx, rfl⟩ := Option.map_eq_some_iff.mp h
    exact hset x hvalue hx

/-! ## Values -/

theorem of_ofJson? {value : Json} (hempty : P {}) (hparts : ∀ part, value.HasPart part → ReadsAs P part)
    (h : ofJson? value = some schema) : P schema := by
  cases value with
  | array items =>
    rw [ofJson?] at h
    exact of_readItems hempty (fun item hmem => hparts item (.item hmem)) h
  | object members =>
    rw [ofJson?] at h
    exact of_readMembers hempty (fun member hmem => hparts member.2 (.member hmem)) h
  | _ => cases h

/-! ## Fields that hold schemas -/

/-- A field that lists schemas. -/
theorem of_listed {set : List Schema → Schema} {value : Json} (hschema : P schema)
    (hparts : ∀ part, value.HasPart part → ReadsAs P part)
    (hset : ∀ members, (∀ member ∈ members, P member) → P (set members))
    (h : (match value with
      | .null => some schema
      | .array items => (ofItems? items).map set
      | _ => none) = some after) : P after := by
  split at h
  next =>
    obtain rfl := Option.some.inj h
    exact hschema
  next items =>
    obtain ⟨members, hmembers, rfl⟩ := Option.map_eq_some_iff.mp h
    exact hset members (forall_of_ofItems? (fun item hmem => hparts item (.item hmem)) hmembers)
  next => cases h

/-- A field that holds schemas under names. -/
theorem of_named {set : List (String × Schema) → Schema} {value : Json} (hschema : P schema)
    (h : (match value with
      | .null => some schema
      | .object members => (ofMembers? members).map set
      | _ => none) = some after)
    (hparts : ∀ part, value.HasPart part → ReadsAs P part)
    (hset : ∀ entries, (∀ entry ∈ entries, P entry.2) → P (set entries)) : P after := by
  cases value with
  | null =>
    obtain rfl := Option.some.inj h
    exact hschema
  | object members =>
    obtain ⟨entries, hentries, rfl⟩ := Option.map_eq_some_iff.mp h
    exact hset entries
      (forall_of_ofMembers? (fun member hmem => hparts member.2 (.member hmem)) hentries)
  | _ => cases h

/-- A field that holds a schema. -/
theorem of_single {set : Schema → Schema} {value : Json} (hempty : P {}) (hschema : P schema)
    (h : (match value with
      | .null => some schema
      | .object members => (readMembers {} members).map set
      | .array items => (readItems {} fieldNames items).map set
      | _ => none) = some after)
    (hparts : ∀ part, value.HasPart part → ReadsAs P part) (hset : ∀ read, P read → P (set read)) :
    P after := by
  cases value with
  | null =>
    obtain rfl := Option.some.inj h
    exact hschema
  | object members =>
    obtain ⟨read, hread, rfl⟩ := Option.map_eq_some_iff.mp h
    exact hset read (of_readMembers hempty (fun member hmem => hparts member.2 (.member hmem)) hread)
  | array items =>
    obtain ⟨read, hread, rfl⟩ := Option.map_eq_some_iff.mp h
    exact hset read (of_readItems hempty (fun item hmem => hparts item (.item hmem)) hread)
  | _ => cases h

/-- A field that holds a schema or a truth value. -/
theorem of_singleOrFlag {set : Schema → Schema} {flag : Bool → Schema} {value : Json}
    (hempty : P {}) (hschema : P schema)
    (h : (match value with
      | .null => some schema
      | .boolean allowed => some (flag allowed)
      | .object members => (readMembers {} members).map set
      | .array items => (readItems {} fieldNames items).map set
      | _ => none) = some after)
    (hparts : ∀ part, value.HasPart part → ReadsAs P part) (hset : ∀ read, P read → P (set read))
    (hflag : ∀ allowed, P (flag allowed)) : P after := by
  cases value with
  | boolean allowed =>
    obtain rfl := Option.some.inj h
    exact hflag allowed
  | _ => exact of_single hempty hschema (by exact h) hparts hset

/-- **What holds of every schema that is read.**  It holds of the empty schema and is kept by reading a
field, if all that is read inside the value of the field has it. -/
theorem readsAs (hempty : P {}) (hpart : ∀ value part, value.HasPart part → Q value → Q part)
    (hfield : ∀ value, Q value → (∀ part, value.HasPart part → ReadsAs P part) →
      ∀ schema after name, P schema → readField schema name value = some after → P after)
    (value : Json) (hvalue : Q value) : ReadsAs P value := by
  induction value using WellFounded.induction (measure (sizeOf : Json → Nat)).wf with
  | _ value ih =>
    have hparts : ∀ part, value.HasPart part → ReadsAs P part :=
      fun part h => ih part h.sizeOf_lt (hpart value part h hvalue)
    exact ⟨of_ofJson? hempty hparts, hfield value hvalue hparts _ _ _⟩

end Schema

end ApiScribe
