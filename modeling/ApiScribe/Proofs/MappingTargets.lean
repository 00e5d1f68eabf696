import ApiScribe.Proofs.CollectedBindings
import ApiScribe.Proofs.EscapedSteps
import ApiScribe.Proofs.TypeNames

/-!
# The targets of mappings

A discriminator maps literals to schemas, and names each of them by a pointer or by its bare name.  Which
of the two a target is has to be guessed from its characters: one with a number sign, a slash, a dot or a
colon in it is taken for a pointer.

A pointer in which the name of a schema is escaped leads to the schema, whatever the name is.  A bare name
does if it is not taken for a pointer and has no escapes that would be read as something else
(`shapeName_bare_iff`).  Among the names that a component can have this is a matter of dots: a name with a
dot in it is taken for a pointer, and one that leaves the document (`shapeName_dotted`).

`mappedLiterals_targets` states this of single targets and of whole mappings; `exists_unresolved_name` is
a legal name that stops the document that maps to it.
-/

namespace ApiScribe.Binding

open Text

variable {root : Json} {name : String}

/-! ## Pointers and bare names -/

theorem isPointer_eq_false_iff :
    isPointer name = false ↔
      ∀ c ∈ name.toList, c ≠ '#' ∧ c ≠ '/' ∧ c ≠ '.' ∧ c ≠ ':' := by
  simp only [isPointer, List.any_eq_false, Bool.or_eq_true, decide_eq_true_eq, not_or, and_assoc]

/-- The steps of a text behind the place of the named schemas. -/
theorem steps_behindSchemas {written : List Char} (h : '/' ∉ written) :
    Pointer.steps ("#/components/schemas/" ++ String.ofList written) =
      .ok ["components", "schemas", String.ofList (Pointer.unescape written)] := by
  have hpointer : "#/components/schemas/" ++ String.ofList written =
      Pointer.ofWritten ["components".toList, "schemas".toList, written] := by
    rw [← String.toList_inj, String.toList_append, String.toList_ofList, Pointer.ofWritten,
      String.toList_ofList]
    simp
  have hfree : ∀ step ∈ ["components".toList, "schemas".toList, written], '/' ∉ step := by
    simp [h]
  rw [hpointer, Pointer.steps_ofWritten hfree]
  rfl

/-- A name is never found by itself as a pointer, because what a step stands for is shorter than the
pointer. -/
theorem shapeName_ne_self : Pointer.shapeName root name ≠ .ok name := by
  intro h
  obtain ⟨hsteps, -⟩ := Pointer.shapeName_eq_ok.mp h
  rw [Pointer.steps.eq_def] at hsteps
  split at hsteps
  next fragment hname =>
    split at hsteps
    next => cases hsteps
    next path =>
      have hmem : name ∈ (pieces (fun c => c = '/') path).map fun step =>
          String.ofList (Pointer.unescape step) := by
        rw [Except.ok.inj hsteps]
        simp
      obtain ⟨piece, hpiece, heq⟩ := List.mem_map.mp hmem
      have hread : name.toList.length ≤ piece.length := by
        rw [← heq, String.toList_ofList]
        exact Pointer.length_unescape_le piece
      have hcut : piece.length ≤ path.length := length_le_of_mem_pieces hpiece
      rw [hname, List.length_cons, List.length_cons] at hread
      omega
    next => cases hsteps
  next => cases hsteps

section Schemas

variable {components schemas : Table Json}
  (hcomponents : root.member? "components" = some (.object components))
  (hschemas : components.get? "schemas" = some (.object schemas))
include hcomponents hschemas

/-- **The pointer to a named schema leads to it**, if its name is escaped. -/
theorem shapeName_escaped (hname : name ∈ schemas.names) :
    Pointer.shapeName root
        (targetPointer ("#/components/schemas/" ++ String.ofList (Pointer.escape name.toList))) =
      .ok name := by
  have hpointer :
      isPointer ("#/components/schemas/" ++ String.ofList (Pointer.escape name.toList)) = true := by
    simp [isPointer]
  rw [targetPointer, if_pos hpointer, shapeName_eq_ok_iff hcomponents hschemas,
    steps_behindSchemas (Pointer.slash_notMem_escape _), Pointer.unescape_escape, String.ofList_toList]
  exact ⟨rfl, hname⟩

/-- **When a bare name leads to its schema.** -/
theorem shapeName_bare_iff (hname : name ∈ schemas.names) :
    Pointer.shapeName root (targetPointer name) = .ok name ↔
      isPointer name = false ∧ Pointer.unescape name.toList = name.toList := by
  cases hpointer : isPointer name with
  | true =>
    rw [targetPointer, if_pos hpointer]
    simp only [shapeName_ne_self, Bool.true_eq_false, false_and]
  | false =>
    have hslash : '/' ∉ name.toList := fun hmem =>
      (isPointer_eq_false_iff.mp hpointer '/' hmem).2.1 rfl
    have hsteps := steps_behindSchemas hslash
    rw [String.ofList_toList] at hsteps
    rw [targetPointer, if_neg (ne_true_of_eq_false hpointer),
      shapeName_eq_ok_iff hcomponents hschemas, hsteps]
    simp only [Except.ok.injEq, List.cons.injEq, and_true, true_and, hname]
    rw [← String.toList_inj, String.toList_ofList]

end Schemas

/-! ## Names of components -/

/-- A dot is the only one of the characters that a name of a component can have. -/
theorem isPointer_iff_of_isComponentName (h : IsComponentName name) :
    isPointer name = false ↔ '.' ∉ name.toList := by
  rw [isPointer_eq_false_iff]
  constructor
  · intro hother hdot
    exact (hother '.' hdot).2.2.1 rfl
  · intro hdot c hc
    have hcharacter := h.characters c hc
    refine ⟨?_, ?_, fun heq => hdot (heq ▸ hc), ?_⟩ <;> rintro rfl <;>
      exact absurd hcharacter (by decide)

theorem tilde_notMem_of_isComponentName (h : IsComponentName name) : '~' ∉ name.toList :=
  fun hmem => absurd (h.characters '~' hmem) (by decide)

/-- A text that begins like this has all characters of the beginning. -/
theorem mem_of_startsWith {start : String} (h : startsWith start name = true) {c : Char}
    (hc : c ∈ start.toList) : c ∈ name.toList :=
  (List.isPrefixOf_iff_prefix.mp h).subset hc

/-- **A name with a dot is taken for a reference to another file.** -/
theorem shapeName_dotted (h : IsComponentName name) (hdot : '.' ∈ name.toList) :
    Pointer.shapeName root (targetPointer name) =
      .error (.unsupportedReference name .externalFile) := by
  have hpointer : isPointer name = true := by
    rw [← Bool.not_eq_false, isPointer_iff_of_isComponentName h, not_not]
    exact hdot
  have hforeign : ∀ c, c = '#' ∨ c = ':' → c ∉ name.toList := by
    rintro c (rfl | rfl) hmem <;> exact absurd (h.characters _ hmem) (by decide)
  have hnumber : startsWith "#" name = false := eq_false_of_ne_true fun hstart =>
    hforeign '#' (Or.inl rfl) (mem_of_startsWith hstart (by decide))
  have hplain : startsWith "http://" name = false := eq_false_of_ne_true fun hstart =>
    hforeign ':' (Or.inr rfl) (mem_of_startsWith hstart (by decide))
  have hsecure : startsWith "https://" name = false := eq_false_of_ne_true fun hstart =>
    hforeign ':' (Or.inr rfl) (mem_of_startsWith hstart (by decide))
  have hkind : Pointer.kindOf name = .externalFile := by
    simp [Pointer.kindOf, hnumber, hplain, hsecure]
  have hsteps : Pointer.steps name = .error (.unsupportedReference name .externalFile) := by
    rw [Pointer.steps.eq_def]
    split
    next fragment hname =>
      exact absurd (hname ▸ List.mem_cons_self) (hforeign '#' (Or.inl rfl))
    next => rw [hkind]
  rw [targetPointer, if_pos hpointer, Pointer.shapeName, hsteps]
  rfl

section Schemas

variable {components schemas : Table Json}
  (hcomponents : root.member? "components" = some (.object components))
  (hschemas : components.get? "schemas" = some (.object schemas))
include hcomponents hschemas

/-- **A component is found by its bare name exactly if the name has no dot.** -/
theorem shapeName_component_iff (hname : name ∈ schemas.names) (h : IsComponentName name) :
    Pointer.shapeName root (targetPointer name) = .ok name ↔ '.' ∉ name.toList := by
  have hself : Pointer.unescape name.toList = name.toList :=
    Pointer.unescape_eq_self (tilde_notMem_of_isComponentName h)
  rw [shapeName_bare_iff hcomponents hschemas hname, isPointer_iff_of_isComponentName h]
  exact and_iff_left hself

end Schemas

/-! ## Mappings -/

/-- **A mapping is read entry by entry.** -/
theorem mappedLiterals_eq_ok_iff {mapping mapped : List (String × String)} :
    mappedLiterals root mapping = .ok mapped ↔
      List.Forall₂ (fun entry named => entry.1 = named.1 ∧
        Pointer.shapeName root (targetPointer entry.2) = .ok named.2) mapping mapped := by
  induction mapping generalizing mapped with
  | nil => rw [mappedLiterals, Except.ok.injEq, List.forall₂_nil_left_iff, eq_comm]
  | cons entry mapping ih =>
    obtain ⟨literal, target⟩ := entry
    simp only [mappedLiterals, CompileError.bind_eq_ok, List.forall₂_cons_left_iff]
    constructor
    · rintro ⟨found, hfound, others, hothers, h⟩
      exact ⟨(literal, found), others, ⟨rfl, hfound⟩, ih.mp hothers, (Except.ok.inj h).symm⟩
    · rintro ⟨⟨_, found⟩, others, ⟨rfl, hfound⟩, hothers, rfl⟩
      exact ⟨found, hfound, others, ih.mpr hothers, rfl⟩

/-- The target is the name of the schema, which a component can have, or the pointer to the schema. -/
def Names (name target : String) : Prop :=
  IsComponentName name ∧ target = name ∨
    target = "#/components/schemas/" ++ String.ofList (Pointer.escape name.toList)

/-- A mapping to schemas without dots in bare names is read as it was meant. -/
theorem mappedLiterals_of_names {components schemas : Table Json}
    (hcomponents : root.member? "components" = some (.object components))
    (hschemas : components.get? "schemas" = some (.object schemas))
    {mapping named : List (String × String)} (hnamed : ∀ entry ∈ named, entry.2 ∈ schemas.names)
    (hnames :
      List.Forall₂ (fun entry named => entry.1 = named.1 ∧ Names named.2 entry.2) mapping named)
    (hfree : ∀ entry ∈ mapping, IsComponentName entry.2 → '.' ∉ entry.2.toList) :
    mappedLiterals root mapping = .ok named := by
  refine mappedLiterals_eq_ok_iff.mpr ?_
  induction hnames with
  | nil => exact List.Forall₂.nil
  | @cons entry first mapping named hentry _ ih =>
    obtain ⟨hmem, hothers⟩ := List.forall_mem_cons.mp hnamed
    obtain ⟨hdot, hfree⟩ := List.forall_mem_cons.mp hfree
    obtain ⟨hliteral, htarget⟩ := hentry
    refine List.Forall₂.cons ⟨hliteral, ?_⟩ (ih hothers hfree)
    rcases htarget with ⟨hlegal, hbare⟩ | hpointer
    · rw [hbare] at hdot ⊢
      exact (shapeName_component_iff hcomponents hschemas hmem hlegal).mpr (hdot hlegal)
    · rw [hpointer]
      exact shapeName_escaped hcomponents hschemas hmem

/-- **Which targets are found.**  In a document with named schemas, the pointer in which the name of one
is escaped leads to it.  A bare name does exactly if it is not taken for a pointer and has no escapes; for
a name that a component can have, exactly if it has no dot, and otherwise it is reported as a reference to
another file.  So a mapping that names schemas is read exactly if no bare name in it has a dot, and then
every target stands for the schema that it names. -/
theorem mappedLiterals_targets {components schemas : Table Json}
    (hcomponents : root.member? "components" = some (.object components))
    (hschemas : components.get? "schemas" = some (.object schemas)) :
    (∀ name ∈ schemas.names,
      Pointer.shapeName root
          (targetPointer ("#/components/schemas/" ++ String.ofList (Pointer.escape name.toList))) =
        .ok name ∧
      (Pointer.shapeName root (targetPointer name) = .ok name ↔
        isPointer name = false ∧ Pointer.unescape name.toList = name.toList) ∧
      (IsComponentName name →
        (Pointer.shapeName root (targetPointer name) = .ok name ↔ '.' ∉ name.toList) ∧
        ('.' ∈ name.toList → Pointer.shapeName root (targetPointer name) =
          .error (.unsupportedReference name .externalFile)))) ∧
    ∀ mapping named : List (String × String),
      (∀ entry ∈ named, entry.2 ∈ schemas.names) →
      List.Forall₂ (fun entry named => entry.1 = named.1 ∧ Names named.2 entry.2) mapping named →
      ((∃ mapped, mappedLiterals root mapping = .ok mapped) ↔
        ∀ entry ∈ mapping, IsComponentName entry.2 → '.' ∉ entry.2.toList) ∧
      ∀ mapped, mappedLiterals root mapping = .ok mapped → mapped = named := by
  constructor
  · intro name hname
    refine ⟨shapeName_escaped hcomponents hschemas hname,
      shapeName_bare_iff hcomponents hschemas hname, fun hlegal => ⟨?_, shapeName_dotted hlegal⟩⟩
    exact shapeName_component_iff hcomponents hschemas hname hlegal
  · intro mapping named hnamed hnames
    have hread : (∀ entry ∈ mapping, IsComponentName entry.2 → '.' ∉ entry.2.toList) →
        mappedLiterals root mapping = .ok named :=
      mappedLiterals_of_names hcomponents hschemas hnamed hnames
    have hfree : ∀ {mapped}, mappedLiterals root mapping = .ok mapped →
        ∀ entry ∈ mapping, IsComponentName entry.2 → '.' ∉ entry.2.toList := by
      intro mapped hmapped entry hentry hlegal hdot
      obtain ⟨found, -, -, hfound⟩ :=
        exists_of_forall₂_left (mappedLiterals_eq_ok_iff.mp hmapped) hentry
      rw [shapeName_dotted hlegal hdot] at hfound
      cases hfound
    refine ⟨⟨fun ⟨mapped, hmapped⟩ => hfree hmapped, fun h => ⟨named, hread h⟩⟩, ?_⟩
    intro mapped hmapped
    exact Except.ok.inj (hmapped.symm.trans (hread (hfree hmapped)))

/-- The names of the schemas in the value of a document. -/
def schemaNames? (root : Json) : Option (List String) :=
  match root.member? "components" with
  | some (.object components) =>
    match Table.get? components "schemas" with
    | some (.object schemas) => some (Table.names schemas)
    | _ => none
  | _ => none

theorem exists_of_schemaNames? {names : List String} (h : schemaNames? root = some names) :
    ∃ components schemas : Table Json, root.member? "components" = some (.object components) ∧
      components.get? "schemas" = some (.object schemas) ∧ schemas.names = names := by
  rw [schemaNames?.eq_def] at h
  split at h
  next components hcomponents =>
    split at h
    next schemas hschemas => exact ⟨components, schemas, hcomponents, hschemas, Option.some.inj h⟩
    next => cases h
  next => cases h

/-- A document with a union of pets, in which a lion is mapped to a schema with dots in its name. -/
def lionWithDots : String :=
  String.intercalate "\n"
    ["openapi: 3.0.0",
      "paths: \x7b\x7d",
      "components:",
      " schemas:",
      "  Pet:",
      "   oneOf:",
      "   - $ref: '#/components/schemas/Cat'",
      "   - $ref: '#/components/schemas/api.v1.Cat'",
      "   discriminator:",
      "    propertyName: kind",
      "    mapping:",
      "     cat: Cat",
      "     lion: api.v1.Cat",
      "  Cat: \x7b\x7d",
      "  big/cat~1: \x7b\x7d",
      "  api.v1.Cat: \x7b\x7d"]

theorem reads_lionWithDots : Document.reads .yaml lionWithDots (fun document =>
    schemaNames? document.root = some ["Pet", "Cat", "big/cat~1", "api.v1.Cat"] &&
    (document.namedShapes.any fun named => match union? named.shape with
      | some (_, discriminator) => discriminator.mapping.contains ("lion", "api.v1.Cat") &&
          mappedLiterals document.root discriminator.mapping =
            .error (.unsupportedReference "api.v1.Cat" .externalFile)
      | none => false) &&
    collect document.root document.namedShapes =
      .error (.unsupportedReference "api.v1.Cat" .externalFile)) = true := by
  decide +kernel

theorem mappedLiterals_targets_lion :
    ∃ document, Document.readAs .yaml lionWithDots = .ok document ∧
      mappedLiterals document.root
          [("cat", "Cat"), ("lion", "#/components/schemas/big~1cat~01")] =
        .ok [("cat", "Cat"), ("lion", "big/cat~1")] ∧
      Pointer.shapeName document.root (targetPointer "big/cat~1") ≠ .ok "big/cat~1" := by
  obtain ⟨document, hread, hcheck⟩ := Document.exists_of_reads reads_lionWithDots
  simp only [Bool.and_eq_true, decide_eq_true_eq] at hcheck
  obtain ⟨components, schemas, hcomponents, hschemas, hnames⟩ := exists_of_schemaNames? hcheck.1.1
  have hmem : ∀ name ∈ ["Pet", "Cat", "big/cat~1", "api.v1.Cat"], name ∈ schemas.names := by
    rw [hnames]
    exact fun _ h => h
  have hnamed : ∀ entry ∈ [("cat", "Cat"), ("lion", "big/cat~1")], entry.2 ∈ schemas.names :=
    List.forall_mem_cons.mpr
      ⟨hmem "Cat" (by decide), List.forall_mem_singleton.mpr (hmem "big/cat~1" (by decide))⟩
  obtain ⟨hsingle, hmappings⟩ := mappedLiterals_targets hcomponents hschemas
  obtain ⟨hiff, hunique⟩ := hmappings
    [("cat", "Cat"), ("lion", "#/components/schemas/big~1cat~01")]
    [("cat", "Cat"), ("lion", "big/cat~1")] hnamed
    (.cons ⟨rfl, Or.inl ⟨by decide, rfl⟩⟩ (.cons ⟨rfl, Or.inr (by decide)⟩ .nil))
  obtain ⟨mapped, hmapped⟩ := hiff.mpr (by decide)
  refine ⟨document, hread, hunique mapped hmapped ▸ hmapped, fun hself => ?_⟩
  have hplain := (hsingle "big/cat~1" (hmem _ (by decide))).2.1.mp hself
  exact absurd hplain (by decide)

/-- **A legal name can be mistaken for a pointer**, and the document that maps to it is refused. -/
theorem exists_unresolved_name :
    ∃ document, Document.readAs .yaml lionWithDots = .ok document ∧
      IsComponentName "api.v1.Cat" ∧
      (∃ components schemas : Table Json,
        document.root.member? "components" = some (.object components) ∧
        components.get? "schemas" = some (.object schemas) ∧ "api.v1.Cat" ∈ schemas.names) ∧
      (∃ named ∈ document.namedShapes, ∃ members discriminator,
        IsUnion named.shape members discriminator ∧
        ("lion", "api.v1.Cat") ∈ discriminator.mapping ∧
        mappedLiterals document.root discriminator.mapping =
          .error (.unsupportedReference "api.v1.Cat" .externalFile)) ∧
      collect document.root document.namedShapes =
        .error (.unsupportedReference "api.v1.Cat" .externalFile) := by
  obtain ⟨document, hread, hcheck⟩ := Document.exists_of_reads reads_lionWithDots
  simp only [Bool.and_eq_true, List.any_eq_true, decide_eq_true_eq] at hcheck
  obtain ⟨⟨hnames, named, hnamed, hunion⟩, hcollect⟩ := hcheck
  obtain ⟨components, schemas, hcomponents, hschemas, hnames⟩ := exists_of_schemaNames? hnames
  refine ⟨document, hread, by decide, ⟨components, schemas, hcomponents, hschemas, ?_⟩, ?_, hcollect⟩
  · rw [hnames]
    decide
  · split at hunion
    next members discriminator hfound =>
      simp only [Bool.and_eq_true, List.contains_iff_mem, decide_eq_true_eq] at hunion
      exact ⟨named, hnamed, members, discriminator, union?_eq_some_iff.mp hfound, hunion⟩
    next => cases hunion

end ApiScribe.Binding
