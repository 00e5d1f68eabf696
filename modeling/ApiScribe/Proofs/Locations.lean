import ApiScribe.Proofs.CollectedBindings
import ApiScribe.Proofs.EscapedSteps
import ApiScribe.Proofs.NaturalNumerals

/-!
# Locations in a value

A location is a way down a value: from an object to the member of some name, from an array to the item of
some number (`Json.At`).  In a pointer both kinds of steps are written as names, and it depends on the
value which kind a name stands for.  For a member it has to be the name itself; for an item it is any
spelling of the number.

`Pointer.descend` walks along names.  One step either goes to a part of the value, or misses because there
is no such part (`Json.Misses`), or is refused because the value has no parts under names of this form
(`Json.Refuses`), and `Json.stepsTo_or` says that there is no fourth case.  By induction on the names, what
is found is what is at a location that they spell (`Pointer.descend_eq_ok_iff`), and what is reported is
what the first step does that leads nowhere (`Pointer.descend_eq_error_iff`).

`Pointer.lookup_locations` puts this together for pointers as they are written.
-/

namespace ApiScribe

/-! ## Locations -/

/-- A step down: to a member of an object, or to an item of an array. -/
inductive Step where
  | member (name : String)
  | item (index : Fin Pointer.indexBound)

/-- A step as a name. -/
def Step.text : Step → String
  | .member name => name
  | .item index => toString index.val

/-- The name can be read as the step. -/
inductive Step.IsSpelled : Step → String → Prop
  | member (name : String) : IsSpelled (.member name) name
  | item {index : Fin Pointer.indexBound} {name : String}
    (h : Numeral.IsNatural name.toList index.val) : IsSpelled (.item index) name

theorem Step.isSpelled_text (step : Step) : step.IsSpelled step.text := by
  cases step with
  | member name => exact .member name
  | item index => exact .item (Numeral.isNatural_toString index.val)

namespace Json

/-- The step leads from a value to a part of it. -/
inductive StepsTo : Json → Step → Json → Prop
  | member {members : Table Json} {name : String} {part : Json} (hmem : (name, part) ∈ members) :
    StepsTo (.object members) (.member name) part
  | item {items : List Json} {index : Fin Pointer.indexBound} {part : Json}
    (hitem : items[index.val]? = some part) : StepsTo (.array items) (.item index) part

/-- The target is in the value, at the end of the steps. -/
inductive At : Json → List Step → Json → Prop
  | here (value : Json) : At value [] value
  | inside {value part target : Json} {step : Step} {location : List Step}
    (hpart : value.StepsTo step part) (h : At part location target) :
    At value (step :: location) target

/-- There could be a part of this name, but there is none. -/
inductive Misses : Json → String → Prop
  | member {members : Table Json} {name : String} (h : name ∉ members.names) :
    Misses (.object members) name
  | item {items : List Json} {index : Fin Pointer.indexBound} {name : String}
    (hspelled : Numeral.IsNatural name.toList index.val) (h : items.length ≤ index.val) :
    Misses (.array items) name

/-- There can be no part of this name: the value has no parts, or its parts have numbers and the name
spells none that a machine word holds. -/
inductive Refuses : Json → String → Prop
  | null (name : String) : Refuses .null name
  | boolean (value : Bool) (name : String) : Refuses (.boolean value) name
  | number (value : JsonNumber) (name : String) : Refuses (.number value) name
  | string (value name : String) : Refuses (.string value) name
  | array {items : List Json} {name : String}
    (h : ∀ index, Numeral.IsNatural name.toList index → Pointer.indexBound ≤ index) :
    Refuses (.array items) name

variable {value part target : Json} {step : Step} {name pointer : String}

theorem StepsTo.merged (h : value.StepsTo step part) (hvalue : value.Merged) : part.Merged := by
  cases h with
  | member hmem =>
    cases hvalue with
    | object _ hmembers => exact hmembers _ hmem
  | item hitem =>
    cases hvalue with
    | array hitems => exact hitems _ (List.mem_of_getElem? hitem)

/-- **A step goes somewhere, misses, or is refused.** -/
theorem stepsTo_or (value : Json) (name : String) :
    (∃ step part, step.IsSpelled name ∧ value.StepsTo step part) ∨ value.Misses name ∨
      value.Refuses name := by
  cases value with
  | null => exact Or.inr (Or.inr (.null name))
  | boolean value => exact Or.inr (Or.inr (.boolean value name))
  | number value => exact Or.inr (Or.inr (.number value name))
  | string value => exact Or.inr (Or.inr (.string value name))
  | object members =>
    by_cases hname : name ∈ Table.names members
    · obtain ⟨⟨_, part⟩, hmem, rfl⟩ := List.mem_map.mp hname
      exact Or.inl ⟨.member _, part, .member _, .member hmem⟩
    · exact Or.inr (Or.inl (.member hname))
  | array items =>
    by_cases hnumber :
        ∃ index, Numeral.IsNatural name.toList index ∧ index < Pointer.indexBound
    · obtain ⟨index, hspelled, hbound⟩ := hnumber
      rcases Nat.lt_or_ge index items.length with hindex | hindex
      · exact Or.inl ⟨.item ⟨index, hbound⟩, items[index], .item hspelled,
          .item (List.getElem?_eq_getElem hindex)⟩
      · have hitem : Misses (.array items) name := @Misses.item items ⟨index, hbound⟩ name hspelled hindex
        exact Or.inr (Or.inl hitem)
    · refine Or.inr (Or.inr (.array fun index hspelled => Nat.le_of_not_lt fun hbound => ?_))
      exact hnumber ⟨index, hspelled, hbound⟩

end Json

/-! ## Walking along names -/

namespace Pointer

variable {root value part target : Json} {step : Step} {name pointer : String} {names : List String}
  {error : CompileError}

theorem descend_of_stepsTo (hvalue : value.Merged) (hspelled : step.IsSpelled name)
    (h : value.StepsTo step part) (rest : List String) :
    descend pointer value (name :: rest) = descend pointer part rest := by
  cases h with
  | member hmem =>
    cases hspelled with
    | member => rw [descend, (Table.get?_eq_some_iff hvalue.names).mpr hmem]
  | @item items index part hitem =>
    cases hspelled with
    | item hspelled =>
      have hread : Numeral.below? indexBound name.toList = some index.val :=
        Numeral.below?_eq_some_iff.mpr ⟨hspelled, index.isLt⟩
      simp only [descend, hread, hitem]

theorem descend_of_misses (h : value.Misses name) (rest : List String) :
    descend pointer value (name :: rest) = .error (.pointerNotFound pointer) := by
  cases h with
  | member hname => rw [descend, Table.get?_eq_none hname]
  | @item items index name hspelled hlength =>
    have hread : Numeral.below? indexBound name.toList = some index.val :=
      Numeral.below?_eq_some_iff.mpr ⟨hspelled, index.isLt⟩
    simp only [descend, hread, List.getElem?_eq_none hlength]

theorem descend_of_refuses (h : value.Refuses name) (rest : List String) :
    descend pointer value (name :: rest) = .error (.invalidPointerPath pointer name) := by
  cases h with
  | @array items name h =>
    have hread : Numeral.below? indexBound name.toList = none := by
      rw [Option.eq_none_iff_forall_ne_some]
      intro index hindex
      obtain ⟨hspelled, hbound⟩ := Numeral.below?_eq_some_iff.mp hindex
      exact absurd hbound (Nat.not_lt.mpr (h index hspelled))
    simp only [descend, hread]
  | _ => rfl

/-- Names that spell a location are walked to its end. -/
theorem descend_append {location : List Step} (h : value.At location target) (hvalue : value.Merged)
    (hspelled : List.Forall₂ Step.IsSpelled location names) (rest : List String) :
    descend pointer value (names ++ rest) = descend pointer target rest := by
  induction h generalizing names with
  | here value =>
    cases hspelled
    rfl
  | inside hpart _ ih =>
    cases hspelled with
    | cons hstep hspelled =>
      rw [List.cons_append, descend_of_stepsTo hvalue hstep hpart, ih (hpart.merged hvalue) hspelled]

/-- The names lead to a value from which the next name leads nowhere, and that is what is reported. -/
def Fails (pointer : String) (value : Json) (names : List String) (error : CompileError) : Prop :=
  ∃ before name after location reached, names = before ++ name :: after ∧
    List.Forall₂ Step.IsSpelled location before ∧ value.At location reached ∧
    (reached.Misses name ∧ error = .pointerNotFound pointer ∨
      reached.Refuses name ∧ error = .invalidPointerPath pointer name)

/-- **A walk** ends at a location that the names spell, or at the first name that leads nowhere. -/
theorem descend_cases (pointer : String) (hvalue : value.Merged) (names : List String) :
    (∃ location target, List.Forall₂ Step.IsSpelled location names ∧ value.At location target ∧
      descend pointer value names = .ok target) ∨
    ∃ error, Fails pointer value names error ∧ descend pointer value names = .error error := by
  induction names generalizing value with
  | nil => exact Or.inl ⟨[], value, .nil, .here value, by rw [descend]⟩
  | cons name names ih =>
    rcases value.stepsTo_or name with ⟨step, part, hspelled, hpart⟩ | hmisses | hrefuses
    · rw [descend_of_stepsTo hvalue hspelled hpart]
      rcases ih (hpart.merged hvalue) with ⟨location, target, hlocation, hat, hfound⟩ |
        ⟨error, ⟨before, next, after, location, reached, rfl, hlocation, hat, hnext⟩, hfound⟩
      · exact Or.inl ⟨step :: location, target, .cons hspelled hlocation, .inside hpart hat, hfound⟩
      · exact Or.inr ⟨error, ⟨name :: before, next, after, step :: location, reached, rfl,
          .cons hspelled hlocation, .inside hpart hat, hnext⟩, hfound⟩
    · exact Or.inr ⟨_, ⟨[], name, names, [], value, rfl, .nil, .here value, Or.inl ⟨hmisses, rfl⟩⟩,
        descend_of_misses hmisses names⟩
    · exact Or.inr ⟨_, ⟨[], name, names, [], value, rfl, .nil, .here value, Or.inr ⟨hrefuses, rfl⟩⟩,
        descend_of_refuses hrefuses names⟩

/-- **What is found along names** is what is at a location that they spell. -/
theorem descend_eq_ok_iff (hvalue : value.Merged) :
    descend pointer value names = .ok target ↔
      ∃ location, List.Forall₂ Step.IsSpelled location names ∧ value.At location target := by
  constructor
  · intro h
    rcases descend_cases pointer hvalue names with
      ⟨location, found, hspelled, hat, hfound⟩ | ⟨error, -, herror⟩
    · obtain rfl := Except.ok.inj (hfound.symm.trans h)
      exact ⟨location, hspelled, hat⟩
    · cases herror.symm.trans h
  · rintro ⟨location, hspelled, hat⟩
    rw [← List.append_nil names]
    exact descend_append hat hvalue hspelled []

/-- **What is reported along names** is what the first of them does that leads nowhere. -/
theorem descend_eq_error_iff (hvalue : value.Merged) :
    descend pointer value names = .error error ↔ Fails pointer value names error := by
  constructor
  · intro h
    rcases descend_cases pointer hvalue names with
      ⟨location, found, -, -, hfound⟩ | ⟨other, hfails, hother⟩
    · cases hfound.symm.trans h
    · obtain rfl := Except.error.inj (hother.symm.trans h)
      exact hfails
  · rintro ⟨before, name, after, location, reached, rfl, hspelled, hat, hreason⟩
    rw [descend_append hat hvalue hspelled]
    rcases hreason with ⟨hmisses, rfl⟩ | ⟨hrefuses, rfl⟩
    · exact descend_of_misses hmisses after
    · exact descend_of_refuses hrefuses after

/-! ## Pointers as they are written -/

/-- The pointer whose steps stand for the names. -/
def ofNames (names : List String) : String :=
  ofWritten (names.map fun name => escape name.toList)

theorem steps_ofNames (names : List String) : steps (ofNames names) = .ok names := by
  have hfree : ∀ step ∈ names.map fun name => escape name.toList, '/' ∉ step := by
    intro step hstep
    obtain ⟨name, -, rfl⟩ := List.mem_map.mp hstep
    exact slash_notMem_escape name.toList
  have hread : (names.map fun name => String.ofList (unescape (escape name.toList))) = names := by
    simp only [unescape_escape, String.ofList_toList, List.map_id']
  rw [ofNames, steps_ofWritten hfree, List.map_map]
  exact congrArg Except.ok hread

theorem lookup_ofNames (names : List String) :
    lookup root (ofNames names) = descend (ofNames names) root names := by
  rw [lookup, steps_ofNames]
  rfl

/-- The pointer to a named schema. -/
theorem ofNames_schemas (name : String) :
    ofNames ["components", "schemas", name] =
      "#/components/schemas/" ++ String.ofList (escape name.toList) := by
  rw [← String.toList_inj, String.toList_append, String.toList_ofList, ofNames, ofWritten,
    String.toList_ofList]
  simp [escape, escapeChar]

/-- A schema is named by the pointer to its location. -/
theorem shapeName_of_at (hroot : root.Merged) {schemas : Table Json}
    (h : root.At [.member "components", .member "schemas"] (.object schemas))
    (hname : name ∈ schemas.names) :
    shapeName root ("#/components/schemas/" ++ String.ofList (escape name.toList)) = .ok name := by
  obtain ⟨⟨name, schema⟩, hmem, rfl⟩ := List.mem_map.mp hname
  have hmerged : (Json.object schemas).Merged := by
    cases h with
    | inside hcomponents h =>
      cases h with
      | inside hschemas h =>
        cases h
        exact hschemas.merged (hcomponents.merged hroot)
  have hspelled : List.Forall₂ Step.IsSpelled [.member "components", .member "schemas"]
      ["components", "schemas"] := .cons (.member _) (.cons (.member _) .nil)
  rw [← ofNames_schemas, shapeName_eq_ok]
  refine ⟨steps_ofNames _, schema, (descend_append h hroot hspelled [name]).trans ?_⟩
  rw [descend_of_stepsTo hmerged (.member name) (.member hmem), descend]

/-- **Pointers lead to locations.**  A pointer in which the steps to a location are written leads to what
is there, and pointers lead nowhere else.  A pointer in which any names are written leads to the end of a
location that they spell.  If they spell none, what is reported depends on the first name that leads
nowhere: the pointer is not found if a part of this name could be there, and otherwise the name is
reported.  The pointer to a named schema gives its name. -/
theorem lookup_locations (hroot : root.Merged) :
    (∀ location target, root.At location target →
      lookup root (ofNames (location.map Step.text)) = .ok target) ∧
    (∀ names target, lookup root (ofNames names) = .ok target ↔
      ∃ location, List.Forall₂ Step.IsSpelled location names ∧ root.At location target) ∧
    (∀ names error, lookup root (ofNames names) = .error error ↔
      ∃ before name after location reached, names = before ++ name :: after ∧
        List.Forall₂ Step.IsSpelled location before ∧ root.At location reached ∧
        (reached.Misses name ∧ error = .pointerNotFound (ofNames names) ∨
          reached.Refuses name ∧ error = .invalidPointerPath (ofNames names) name)) ∧
    (∀ pointer target, lookup root pointer = .ok target → ∃ location, root.At location target) ∧
    ∀ schemas : Table Json,
      root.At [.member "components", .member "schemas"] (.object schemas) →
      ∀ name ∈ schemas.names,
        shapeName root ("#/components/schemas/" ++ String.ofList (escape name.toList)) =
          .ok name := by
  refine ⟨fun location target hat => ?_, fun names target => ?_, fun names error => ?_,
    fun pointer target hfound => ?_, fun schemas hschemas name => shapeName_of_at hroot hschemas⟩
  · have hspelled : List.Forall₂ Step.IsSpelled location (location.map Step.text) := by
      rw [List.forall₂_map_right_iff, List.forall₂_same]
      exact fun step _ => step.isSpelled_text
    rw [lookup_ofNames, descend_eq_ok_iff hroot]
    exact ⟨location, hspelled, hat⟩
  · rw [lookup_ofNames, descend_eq_ok_iff hroot]
  · rw [lookup_ofNames, descend_eq_error_iff hroot, Fails]
  · obtain ⟨names, -, hfound⟩ := CompileError.bind_eq_ok.mp hfound
    obtain ⟨location, -, hat⟩ := (descend_eq_ok_iff hroot).mp hfound
    exact ⟨location, hat⟩

/-- A value with tags, and with a schema whose name is full of slashes and tildes. -/
def taggedPets : Json :=
  .object [("tags", .array [.string "pets", .object [("a/b~1", .boolean true)]]),
    ("components", .object [("schemas", .object [("~1/", .null)])])]

theorem merged_taggedPets : taggedPets.Merged := by
  refine .object (by decide) ?_
  simp only [List.forall_mem_cons, List.not_mem_nil, false_imp_iff, implies_true, and_true]
  refine ⟨.array ?_, .object (by decide) ?_⟩
  · simp only [List.forall_mem_cons, List.not_mem_nil, false_imp_iff, implies_true, and_true]
    exact ⟨.string _, .object (by decide) (List.forall_mem_singleton.mpr (.boolean true))⟩
  · exact List.forall_mem_singleton.mpr
      (.object (by decide) (List.forall_mem_singleton.mpr .null))

theorem lookup_locations_taggedPets :
    taggedPets.Merged ∧
      lookup taggedPets "#/tags/1/a~1b~01" = .ok (.boolean true) ∧
      lookup taggedPets "#/tags/2/x" = .error (.pointerNotFound "#/tags/2/x") ∧
      lookup taggedPets "#/tags/0/x" = .error (.invalidPointerPath "#/tags/0/x" "x") ∧
      shapeName taggedPets "#/components/schemas/~01~1" = .ok "~1/" := by
  obtain ⟨hlocations, -, hfails, -, hnames⟩ := lookup_locations merged_taggedPets
  have htags : taggedPets.At [.member "tags"]
      (.array [.string "pets", .object [("a/b~1", .boolean true)]]) :=
    .inside (.member List.mem_cons_self) (.here _)
  have hpets : taggedPets.At [.member "tags", .item ⟨0, by decide⟩] (.string "pets") :=
    .inside (.member List.mem_cons_self) (.inside (.item rfl) (.here _))
  have hmember : taggedPets.At [.member "tags", .item ⟨1, by decide⟩, .member "a/b~1"]
      (.boolean true) :=
    .inside (.member List.mem_cons_self) (.inside (.item rfl)
      (.inside (.member List.mem_cons_self) (.here _)))
  have hschemas : taggedPets.At [.member "components", .member "schemas"]
      (.object [("~1/", .null)]) :=
    .inside (.member (List.mem_cons_of_mem _ List.mem_cons_self))
      (.inside (.member List.mem_cons_self) (.here _))
  have hwritten : ofNames ["tags", "1", "a/b~1"] = "#/tags/1/a~1b~01" ∧
      ofNames ["tags", "2", "x"] = "#/tags/2/x" ∧ ofNames ["tags", "0", "x"] = "#/tags/0/x" := by
    decide
  have hspelled := Numeral.isNatural_toString
  refine ⟨merged_taggedPets, ?_, ?_, ?_, ?_⟩
  · have hfound := hlocations _ _ hmember
    exact hwritten.1 ▸ hfound
  · rw [← hwritten.2.1, hfails]
    exact ⟨["tags"], "2", ["x"], _, _, rfl, .cons (.member _) .nil, htags,
      Or.inl ⟨@Json.Misses.item _ ⟨2, by decide⟩ _ (hspelled 2) (by decide), rfl⟩⟩
  · rw [← hwritten.2.2, hfails]
    exact ⟨["tags", "0"], "x", [], _, _, rfl,
      .cons (.member _) (.cons (@Step.IsSpelled.item ⟨0, by decide⟩ _ (hspelled 0)) .nil), hpets,
      Or.inr ⟨.string _ _, rfl⟩⟩
  · exact hnames _ hschemas "~1/" (by decide)

end Pointer

end ApiScribe
