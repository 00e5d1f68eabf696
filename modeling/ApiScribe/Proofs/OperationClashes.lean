import ApiScribe.Proofs.Conservation
import ApiScribe.Proofs.SynthesizedNames

/-!
# Operations that get one name

The methods of a client are named after its operations, so a document in which two operations get the same
name is refused.  This is the only cause that has to do with names: everything else that can stop the
parsing of operations is about references (`neverDuplicate_ofRecord`).

`ofRecords_duplicate_iff` describes the refusal for arbitrary names, and `ofRecords_eq_ok_iff` when there
is none.  Where no operation has a name of its own, the names are made up from methods and paths, and
`ofDocument_clashes` says which places of a document clash: those with the same method at two paths that
are spelled alike.  A placeholder is spelled like a plain step, so `exists_clashing_paths` finds two of
them in a document of two operations.
-/

namespace ApiScribe

open Text Naming

/-! ## Other causes -/

/-- The computation does not fail because two operations have one name. -/
def NeverDuplicate {α : Type} (step : Except CompileError α) : Prop :=
  ∀ id method path, step ≠ .error (.duplicateOperationId id method path)

theorem neverDuplicate_ok {α : Type} (value : α) : NeverDuplicate (.ok value) :=
  fun _ _ _ h => nomatch h

theorem NeverDuplicate.bind {α β : Type} {step : Except CompileError α}
    {next : α → Except CompileError β} (hstep : NeverDuplicate step)
    (hnext : ∀ value, NeverDuplicate (next value)) : NeverDuplicate (step >>= next) := by
  intro id method path h
  cases hvalue : step with
  | error error =>
    rw [hvalue] at h
    have hsame : error = .duplicateOperationId id method path := Except.error.inj h
    exact hstep id method path (hsame ▸ hvalue)
  | ok value =>
    rw [hvalue] at h
    exact hnext value id method path h

namespace Pointer

theorem neverDuplicate_steps (pointer : String) : NeverDuplicate (steps pointer) := by
  intro id method path h
  rw [steps.eq_def] at h
  split at h
  · split at h <;> cases h
  · cases h

theorem neverDuplicate_descend (pointer : String) (value : Json) (steps : List String) :
    NeverDuplicate (descend pointer value steps) := by
  intro id method path
  fun_induction descend pointer value steps with
  | case1 | case3 | case4 | case6 | case7 => nofun
  | case2 _ _ _ _ _ ih => exact ih
  | case5 _ _ _ _ _ _ _ ih => exact ih

theorem neverDuplicate_lookupAs {α : Type} (decode : Json → Option α) (root : Json) (pointer : String) :
    NeverDuplicate (lookupAs decode root pointer) := by
  have hlookup : NeverDuplicate (lookup root pointer) :=
    (neverDuplicate_steps pointer).bind fun steps => neverDuplicate_descend pointer root steps
  refine hlookup.bind fun value => ?_
  intro id method path h
  split at h <;> cases h

end Pointer

namespace Operation

variable {root : Json}

theorem neverDuplicate_resolve {α : Type} (decode : Json → Option α) (root : Json)
    (reference : OrReference α) : NeverDuplicate (reference.resolve decode root) := by
  cases reference with
  | reference pointer => exact Pointer.neverDuplicate_lookupAs decode root pointer
  | item value => exact neverDuplicate_ok value

theorem neverDuplicate_parametersOf (declared : List (OrReference ParameterRecord)) :
    NeverDuplicate (parametersOf root declared) := by
  induction declared with
  | nil => exact neverDuplicate_ok []
  | cons first rest ih =>
    refine (neverDuplicate_resolve _ root first).bind fun parameter => ih.bind fun others => ?_
    intro id method path h
    split at h <;> cases h

theorem neverDuplicate_bodyOf (declared : Option (OrReference BodyRecord)) :
    NeverDuplicate (bodyOf root declared) := by
  cases declared with
  | none => exact neverDuplicate_ok none
  | some body => exact (neverDuplicate_resolve _ root body).bind fun _ => neverDuplicate_ok _

theorem neverDuplicate_firstJson (responses : List (OrReference ResponseRecord)) :
    NeverDuplicate (firstJson root responses) := by
  induction responses with
  | nil => exact neverDuplicate_ok none
  | cons first rest ih =>
    refine (neverDuplicate_resolve _ root first).bind fun response => ?_
    split
    · exact neverDuplicate_ok _
    · exact ih

/-- **A single operation** has no name to share. -/
theorem neverDuplicate_ofRecord (path : String) (shared : List (OrReference ParameterRecord))
    (method : HttpMethod) (declared : OperationRecord) :
    NeverDuplicate (ofRecord root path shared method declared) :=
  (neverDuplicate_parametersOf _).bind fun _ => (neverDuplicate_bodyOf _).bind fun _ =>
    (neverDuplicate_firstJson _).bind fun _ => neverDuplicate_ok _

/-! ## Names in use -/

section Names

variable {used : List String} {entries : List Entry} {operations : List Operation}

/-- The rest of the declarations, once one of them is an operation. -/
theorem ofRecords_cons {entry : Entry} {operation : Operation} (h : entry.Makes root operation) :
    ofRecords root used (entry :: entries) =
      if used.contains operation.methodName then
        .error (.duplicateOperationId operation.id entry.place.2.text entry.place.1)
      else ofRecords root (operation.methodName :: used) entries >>= fun others =>
        .ok (operation :: others) := by
  have hmakes : ofRecord root entry.1 entry.2.1 entry.2.2.1 entry.2.2.2 = .ok operation := h
  rw [ofRecords, hmakes]
  rfl

/-- **When all declarations become operations**: each of them does, and no two have one name. -/
theorem ofRecords_eq_ok_iff :
    ofRecords root used entries = .ok operations ↔
      List.Forall₂ (Entry.Makes root) entries operations ∧ (operations.map methodName).Nodup ∧
        ∀ operation ∈ operations, operation.methodName ∉ used := by
  constructor
  · intro h
    exact ⟨forall₂_of_ofRecords h, nodup_of_ofRecords h⟩
  · rintro ⟨hmakes, hnodup, hnew⟩
    induction hmakes generalizing used with
    | nil => rfl
    | @cons entry operation entries operations hentry _ ih =>
      rw [List.map_cons, List.nodup_cons] at hnodup
      obtain ⟨hfirst, hrest⟩ := List.forall_mem_cons.mp hnew
      have hothers : ∀ other ∈ operations, other.methodName ∉ operation.methodName :: used := by
        intro other hother hmem
        rcases List.mem_cons.mp hmem with heq | hmem
        · exact hnodup.1 (heq ▸ List.mem_map_of_mem hother)
        · exact hrest other hother hmem
      have hunused : ¬ used.contains operation.methodName = true := by
        rw [List.contains_iff_mem]
        exact hfirst
      rw [ofRecords_cons hentry, if_neg hunused, ih hnodup.2 hothers]
      rfl

/-- **When a name is refused**: some declaration makes an operation with a name that is in use, and all
declarations before it make operations. -/
theorem ofRecords_duplicate_iff :
    (∃ id method path, ofRecords root used entries = .error (.duplicateOperationId id method path)) ↔
      ∃ before entry after operations operation, entries = before ++ entry :: after ∧
        List.Forall₂ (Entry.Makes root) before operations ∧ entry.Makes root operation ∧
        (operation.methodName ∈ used ∨ operation.methodName ∈ operations.map methodName) := by
  constructor
  · rintro ⟨id, method, path, h⟩
    induction entries generalizing used with
    | nil => cases h
    | cons entry entries ih =>
      cases hmakes : ofRecord root entry.1 entry.2.1 entry.2.2.1 entry.2.2.2 with
      | error error =>
        rw [ofRecords, hmakes] at h
        have hsame : error = .duplicateOperationId id method path := Except.error.inj h
        exact absurd (hsame ▸ hmakes) (neverDuplicate_ofRecord _ _ _ _ id method path)
      | ok operation =>
        have hentry : entry.Makes root operation := hmakes
        rw [ofRecords_cons hentry] at h
        by_cases hused : used.contains operation.methodName = true
        · exact ⟨[], entry, entries, [], operation, rfl, .nil, hentry,
            Or.inl (List.contains_iff_mem.mp hused)⟩
        · rw [if_neg hused] at h
          have hrest : ofRecords root (operation.methodName :: used) entries =
              .error (.duplicateOperationId id method path) := by
            cases hothers : ofRecords root (operation.methodName :: used) entries with
            | error error =>
              rw [hothers] at h
              exact h
            | ok others =>
              rw [hothers] at h
              cases h
          obtain ⟨before, later, after, operations, repeated, rfl, hbefore, hlater, hname⟩ := ih hrest
          refine ⟨entry :: before, later, after, operation :: operations, repeated, rfl,
            .cons hentry hbefore, hlater, ?_⟩
          rw [List.map_cons, List.mem_cons]
          rcases hname with hname | hname
          · rcases List.mem_cons.mp hname with hname | hname
            · exact Or.inr (Or.inl hname)
            · exact Or.inl hname
          · exact Or.inr (Or.inr hname)
  · rintro ⟨before, entry, after, operations, operation, rfl, hbefore, hentry, hname⟩
    induction hbefore generalizing used with
    | nil =>
      have hused : used.contains operation.methodName = true :=
        List.contains_iff_mem.mpr (hname.resolve_right List.not_mem_nil)
      rw [List.nil_append, ofRecords_cons hentry, if_pos hused]
      exact ⟨_, _, _, rfl⟩
    | @cons first other before operations hfirst _ ih =>
      rw [List.cons_append, ofRecords_cons hfirst]
      by_cases hused : used.contains other.methodName = true
      · rw [if_pos hused]
        exact ⟨_, _, _, rfl⟩
      · rw [if_neg hused]
        have hlater : operation.methodName ∈ other.methodName :: used ∨
            operation.methodName ∈ operations.map methodName := by
          rw [List.map_cons, List.mem_cons] at hname
          rw [List.mem_cons]
          tauto
        obtain ⟨id, method, path, hrest⟩ := ih hlater
        rw [hrest]
        exact ⟨id, method, path, rfl⟩

end Names

/-! ## Operations without names -/

namespace Entry

/-- The declaration gives the operation no name, or a blank one. -/
def IsUnnamed (entry : Entry) : Prop :=
  ∀ id ∈ entry.2.2.2.operationId, Text.trim id.toList = []

/-- The made up names of the declarations are the same: they have the same method, and paths that are
spelled alike. -/
def Clashes (first second : Entry) : Prop :=
  first.place.2 = second.place.2 ∧ spelledPath first.place.1 = spelledPath second.place.1

/-- The declaration makes some operation. -/
def IsReadable (root : Json) (entry : Entry) : Prop :=
  ∃ operation, entry.Makes root operation

variable {entry : Entry} {operation : Operation}

theorem IsUnnamed.id_eq (h : entry.IsUnnamed) (hmakes : entry.Makes root operation) :
    operation.id = synthesizedId entry.place.2 entry.place.1 := by
  simp only [Makes, ofRecord, CompileError.bind_eq_ok] at hmakes
  obtain ⟨_, _, _, _, _, _, hmakes⟩ := hmakes
  obtain rfl := Except.ok.inj hmakes
  rw [idOf.eq_def]
  dsimp only
  split
  next id hid =>
    have hblank : (Text.trim id.toList).isEmpty = true := by
      rw [h id hid]
      rfl
    rw [if_pos hblank]
    rfl
  next => rfl

/-- Operations without names of their own have one method name exactly if their declarations clash. -/
theorem IsUnnamed.methodName_eq_iff {other : Entry} {second : Operation} (h : entry.IsUnnamed)
    (hother : other.IsUnnamed) (hmakes : entry.Makes root operation)
    (hsecond : other.Makes root second) :
    operation.methodName = second.methodName ↔ entry.Clashes other := by
  rw [methodName, methodName, h.id_eq hmakes, hother.id_eq hsecond]
  exact identifier_synthesizedId_eq_iff

end Entry

/-! ## All declarations of a document -/

section Related

variable {α β : Type} {R : α → β → Prop} {xs : List α} {ys : List β}

/-- Where each element is related to something, a list is. -/
theorem exists_forall₂ (h : ∀ x ∈ xs, ∃ y, R x y) : ∃ ys, List.Forall₂ R xs ys := by
  induction xs with
  | nil => exact ⟨[], .nil⟩
  | cons x xs ih =>
    obtain ⟨⟨y, hy⟩, hxs⟩ := List.forall_mem_cons.mp h
    obtain ⟨ys, hys⟩ := ih hxs
    exact ⟨y :: ys, .cons hy hys⟩

/-- What any two elements of a list are to each other, the related ones are, if that is the same for
related elements. -/
theorem pairwise_iff_of_forall₂ {P : α → α → Prop} {Q : β → β → Prop} (h : List.Forall₂ R xs ys)
    (hsame : ∀ x ∈ xs, ∀ x' ∈ xs, ∀ y y', R x y → R x' y' → (P x x' ↔ Q y y')) :
    xs.Pairwise P ↔ ys.Pairwise Q := by
  induction h with
  | nil => exact iff_of_true .nil .nil
  | @cons x y xs ys hxy hrest ih =>
    have htail : ∀ a ∈ xs, ∀ a' ∈ xs, ∀ b b', R a b → R a' b' → (P a a' ↔ Q b b') :=
      fun a ha a' ha' => hsame a (List.mem_cons_of_mem x ha) a' (List.mem_cons_of_mem x ha')
    have hhead : (∀ x' ∈ xs, P x x') ↔ ∀ y' ∈ ys, Q y y' := by
      constructor
      · intro hall y' hy'
        obtain ⟨x', hx', hrelated⟩ := exists_of_forall₂_right hrest hy'
        exact (hsame x List.mem_cons_self x' (List.mem_cons_of_mem x hx') y y' hxy hrelated).mp
          (hall x' hx')
      · intro hall x' hx'
        obtain ⟨y', hy', hrelated⟩ := exists_of_forall₂_left hrest hx'
        exact (hsame x List.mem_cons_self x' (List.mem_cons_of_mem x hx') y y' hxy hrelated).mpr
          (hall y' hy')
    rw [List.pairwise_cons, List.pairwise_cons, hhead, ih htail]

end Related

section Unnamed

variable {entries : List Entry} (hunnamed : ∀ entry ∈ entries, entry.IsUnnamed)
include hunnamed

/-- **When declarations without names are refused**: one clashes with an earlier one, and nothing else
stops the parsing before. -/
theorem unnamed_duplicate_iff :
    (∃ id method path, ofRecords root [] entries = .error (.duplicateOperationId id method path)) ↔
      ∃ before entry after, entries = before ++ entry :: after ∧
        (∀ declared ∈ entry :: before, declared.IsReadable root) ∧
        ∃ earlier ∈ before, earlier.Clashes entry := by
  rw [ofRecords_duplicate_iff]
  constructor
  · rintro ⟨before, entry, after, operations, operation, rfl, hbefore, hentry, hname⟩
    obtain ⟨first, hfirst, hsame⟩ := List.mem_map.mp (hname.resolve_left List.not_mem_nil)
    obtain ⟨earlier, hearlier, hmakes⟩ := exists_of_forall₂_right hbefore hfirst
    have hreadable : ∀ declared ∈ before, declared.IsReadable root := by
      intro declared hdeclared
      obtain ⟨made, -, hmade⟩ := exists_of_forall₂_left hbefore hdeclared
      exact ⟨made, hmade⟩
    refine ⟨before, entry, after, rfl, List.forall_mem_cons.mpr ⟨⟨operation, hentry⟩, hreadable⟩,
      earlier, hearlier, ?_⟩
    exact ((hunnamed earlier (by simp [hearlier])).methodName_eq_iff (hunnamed entry (by simp)) hmakes
      hentry).mp hsame
  · rintro ⟨before, entry, after, rfl, hreadable, earlier, hearlier, hclashes⟩
    obtain ⟨⟨operation, hentry⟩, hbefore⟩ := List.forall_mem_cons.mp hreadable
    obtain ⟨operations, hoperations⟩ := exists_forall₂ hbefore
    obtain ⟨first, hfirst, hmakes⟩ := exists_of_forall₂_left hoperations hearlier
    have hsame : first.methodName = operation.methodName :=
      ((hunnamed earlier (by simp [hearlier])).methodName_eq_iff (hunnamed entry (by simp)) hmakes
        hentry).mpr hclashes
    exact ⟨before, entry, after, operations, operation, rfl, hoperations, hentry,
      Or.inr (hsame ▸ List.mem_map_of_mem hfirst)⟩

/-- **When declarations without names become operations**: all are readable and no two clash. -/
theorem exists_unnamed_iff :
    (∃ operations, ofRecords root [] entries = .ok operations) ↔
      (∀ entry ∈ entries, entry.IsReadable root) ∧
        entries.Pairwise fun first second => ¬ first.Clashes second := by
  have hpairwise : ∀ {operations}, List.Forall₂ (Entry.Makes root) entries operations →
      ((entries.Pairwise fun first second => ¬ first.Clashes second) ↔
        (operations.map methodName).Nodup) := by
    intro operations hmakes
    rw [List.Nodup, List.pairwise_map]
    refine pairwise_iff_of_forall₂ hmakes fun first hfirst second hsecond a b ha hb => ?_
    rw [Ne, (hunnamed first hfirst).methodName_eq_iff (hunnamed second hsecond) ha hb]
  constructor
  · rintro ⟨operations, h⟩
    obtain ⟨hmakes, hnodup, -⟩ := ofRecords_eq_ok_iff.mp h
    refine ⟨fun entry hentry => ?_, (hpairwise hmakes).mpr hnodup⟩
    obtain ⟨operation, -, hoperation⟩ := exists_of_forall₂_left hmakes hentry
    exact ⟨operation, hoperation⟩
  · rintro ⟨hreadable, hclashes⟩
    obtain ⟨operations, hmakes⟩ := exists_forall₂ hreadable
    exact ⟨operations, ofRecords_eq_ok_iff.mpr
      ⟨hmakes, (hpairwise hmakes).mp hclashes, fun _ _ => List.not_mem_nil⟩⟩

end Unnamed

/-- **Which operations clash** in a document where none has a name of its own.  The declarations stand at
different places.  Their made up names are the same exactly if their methods are and their paths are
spelled alike; for plain paths, if the words are the same up to the case of their first letters.  The
document is refused because of a name exactly if a declaration clashes with an earlier one and all up to
it are readable, and its operations are parsed exactly if all declarations are readable and no two clash.
-/
theorem ofDocument_clashes {format : Notation} {text : String} {document : Document}
    (hread : Document.readAs format text = .ok document)
    (hunnamed : ∀ entry ∈ declarations document.paths, Entry.IsUnnamed entry) :
    ((declarations document.paths).map Entry.place = Document.places document.root ∧
      (Document.places document.root).Nodup) ∧
    (∀ first second : String × HttpMethod,
      (identifier (synthesizedId first.2 first.1) = identifier (synthesizedId second.2 second.1) ↔
        first.2 = second.2 ∧ spelledPath first.1 = spelledPath second.1) ∧
      (IsPlainPath first.1 → IsPlainPath second.1 →
        (spelledPath first.1 = spelledPath second.1 ↔
          (words isGap first.1.toList).map capitalizeChars =
            (words isGap second.1.toList).map capitalizeChars))) ∧
    ((∃ id method path, ofDocument document = .error (.duplicateOperationId id method path)) ↔
      ∃ before entry after, declarations document.paths = before ++ entry :: after ∧
        (∀ declared ∈ entry :: before, Entry.IsReadable document.root declared) ∧
        ∃ earlier ∈ before, Entry.Clashes earlier entry) ∧
    ((∃ operations, ofDocument document = .ok operations) ↔
      (∀ entry ∈ declarations document.paths, Entry.IsReadable document.root entry) ∧
        (declarations document.paths).Pairwise fun first second => ¬ Entry.Clashes first second) := by
  have hdocument := Document.wasRead_of_readAs hread
  exact ⟨⟨places_declarations hdocument, hdocument.nodup_places⟩,
    fun _ _ => ⟨identifier_synthesizedId_eq_iff, spelledPath_eq_iff⟩,
    unnamed_duplicate_iff hunnamed, exists_unnamed_iff hunnamed⟩

/-- Why the operations of a document are refused, if they are. -/
def refusal? (document : Document) : Option CompileError :=
  match ofDocument document with
  | .ok _ => none
  | .error error => some error

theorem refusal?_cases (document : Document) :
    (refusal? document = none ∧ ∃ operations, ofDocument document = .ok operations) ∨
      ∃ error, refusal? document = some error ∧ ofDocument document = .error error := by
  rw [refusal?]
  cases ofDocument document with
  | ok operations => exact Or.inl ⟨rfl, operations, rfl⟩
  | error error => exact Or.inr ⟨error, rfl, rfl⟩

/-- A document with an operation for a pet of any name, and one at the other path. -/
def petsAnd (path : String) : String :=
  String.intercalate "\n"
    ["openapi: 3.0.0",
      "paths:",
      " /pets/\x7bid\x7d:",
      "  get:",
      "   responses: \x7b\x7d",
      " " ++ path ++ ":",
      "  get:",
      "   responses: \x7b\x7d"]

theorem ofDocument_clashes_cats :
    ∃ document, Document.readAs .yaml (petsAnd "/pets/cats") = .ok document ∧
      (∃ operations, ofDocument document = .ok operations) ∧
      (declarations document.paths).Pairwise (fun first second => ¬ Entry.Clashes first second) ∧
      Document.places document.root = [("/pets/\x7bid\x7d", .get), ("/pets/cats", .get)] ∧
      identifier (synthesizedId .get "/pets/\x7bid\x7d") ≠
        identifier (synthesizedId .get "/pets/cats") := by
  have hreads : Document.reads .yaml (petsAnd "/pets/cats") (fun document =>
      (∀ entry ∈ declarations document.paths, entry.2.2.2.operationId = none) ∧
        refusal? document = none ∧
        Document.places document.root = [("/pets/\x7bid\x7d", .get), ("/pets/cats", .get)]) = true := by
    decide +kernel
  obtain ⟨document, hread, hcheck⟩ := Document.exists_of_reads hreads
  obtain ⟨hnone, hrefusal, hplaces⟩ := of_decide_eq_true hcheck
  have hunnamed : ∀ entry ∈ declarations document.paths, Entry.IsUnnamed entry := by
    intro entry hentry id hid
    rw [hnone entry hentry] at hid
    cases hid
  obtain ⟨-, hnames, -, hparsed⟩ := ofDocument_clashes hread hunnamed
  have hok : ∃ operations, ofDocument document = .ok operations := by
    rcases refusal?_cases document with ⟨-, hok⟩ | ⟨error, hrefused, -⟩
    · exact hok
    · rw [hrefusal] at hrefused
      cases hrefused
  refine ⟨document, hread, hok, (hparsed.mp hok).2, hplaces, ?_⟩
  rw [Ne, (hnames ("/pets/\x7bid\x7d", .get) ("/pets/cats", .get)).1]
  decide +kernel

/-- **Made up names can clash**: a placeholder is spelled like a step with its name, and the document is
refused. -/
theorem exists_clashing_paths :
    ∃ document, Document.readAs .yaml (petsAnd "/pets/id") = .ok document ∧
      (∀ entry ∈ declarations document.paths, Entry.IsUnnamed entry) ∧
      Document.places document.root = [("/pets/\x7bid\x7d", .get), ("/pets/id", .get)] ∧
      identifier (synthesizedId .get "/pets/\x7bid\x7d") = identifier (synthesizedId .get "/pets/id") ∧
      ofDocument document = .error (.duplicateOperationId "getPetsId" "GET" "/pets/id") := by
  have hreads : Document.reads .yaml (petsAnd "/pets/id") (fun document =>
      (∀ entry ∈ declarations document.paths, entry.2.2.2.operationId = none) ∧
        refusal? document = some (.duplicateOperationId "getPetsId" "GET" "/pets/id") ∧
        Document.places document.root = [("/pets/\x7bid\x7d", .get), ("/pets/id", .get)]) = true := by
    decide +kernel
  obtain ⟨document, hread, hcheck⟩ := Document.exists_of_reads hreads
  obtain ⟨hnone, hrefusal, hplaces⟩ := of_decide_eq_true hcheck
  refine ⟨document, hread, fun entry hentry id hid => ?_, hplaces,
    identifier_synthesizedId_eq_iff.mpr ⟨rfl, by decide +kernel⟩, ?_⟩
  · rw [hnone entry hentry] at hid
    cases hid
  · rcases refusal?_cases document with ⟨hnothing, -⟩ | ⟨error, hrefused, herror⟩
    · rw [hrefusal] at hnothing
      cases hnothing
    · rw [hrefusal] at hrefused
      rw [herror, Option.some.inj hrefused]

end Operation

end ApiScribe
