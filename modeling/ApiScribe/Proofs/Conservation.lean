import ApiScribe.Proofs.ClassMembers
import ApiScribe.Proofs.DocumentNames
import ApiScribe.Proofs.FileNames
import ApiScribe.Proofs.RecordReferences
import ApiScribe.Proofs.Signatures

/-!
# No operation is lost or repeated

An operation is declared at a place: a path, and the method that a field of its path item names.
`Document.places` reads the places off the value of a document, in the order of the paths and then of
the methods.  On the way from there to the methods of clients, operations are parsed, entered under
each of their tags, and written one by one.  Each of these steps relates two lists, entry by entry:

* `places_declarations`: the operations are declared at these places, and at no other.
* `Operation.forall₂_of_ofRecords`: each declaration makes one operation.
* `Operation.byTag_eq`: the operations of a tag are those that have it.
* `Client.IsRun.assembles`: each operation of a client makes one method.
* `Client.IsRun.source_eq`: these methods and no others are in the class that the file holds.

So the methods of the client of a tag correspond to the declarations with that tag
(`generate_conserves`).  A tag that is repeated, or the tag that stands in for no tags, does not count
twice, because an operation has its groups once.
-/

namespace ApiScribe

open TypeScript

/-! ## Where operations are declared -/

namespace PathItem

/-- Does the field declare an operation? -/
def declares (fields : Table Json) (field : String) : Bool :=
  match fields.get? field with
  | none => false
  | some .null => false
  | some _ => true

/-- The methods for which a path item declares operations, in their order. -/
def methodsOf (item : Json) : List HttpMethod :=
  match item.record? (methods.map Prod.snd ++ ["parameters"]) 9 with
  | some fields => (methods.filter fun method => declares fields method.2).map Prod.fst
  | none => []

theorem nodup_methodsOf (item : Json) : (methodsOf item).Nodup := by
  rw [methodsOf]
  split
  next fields =>
    have hmethods : (methods.map Prod.fst).Nodup := by decide
    exact (List.filter_sublist.map Prod.fst).nodup hmethods
  next => exact List.nodup_nil

theorem operations?_eq_some {fields : Table Json} {candidates : List (HttpMethod × String)}
    {operations : List (HttpMethod × OperationRecord)}
    (h : operations? fields candidates = some operations) :
    operations.map Prod.fst =
      (candidates.filter fun method => declares fields method.2).map Prod.fst := by
  induction candidates generalizing operations with
  | nil =>
    obtain rfl := Option.some.inj h
    rfl
  | cons candidate candidates ih =>
    obtain ⟨method, field⟩ := candidate
    simp only [operations?, Option.bind_eq_bind, Option.bind_eq_some_iff, Option.pure_def] at h
    obtain ⟨operation, hoperation, others, hothers, h⟩ := h
    rw [Json.optionalField?] at hoperation
    rw [List.filter_cons, declares]
    split at hoperation
    next hnone =>
      obtain rfl := Option.some.inj hoperation
      obtain rfl := Option.some.inj h
      rw [hnone]
      exact ih hothers
    next hnull =>
      obtain rfl := Option.some.inj hoperation
      obtain rfl := Option.some.inj h
      rw [hnull]
      exact ih hothers
    next value hnull hvalue =>
      obtain ⟨record, -, rfl⟩ := Option.map_eq_some_iff.mp hoperation
      obtain rfl := Option.some.inj h
      have hdeclares : declares fields field = true := by
        rw [declares, hvalue]
        cases value with
        | null => exact absurd rfl hnull
        | _ => rfl
      rw [← declares, if_pos hdeclares, List.map_cons, List.map_cons, ih hothers]

theorem methods_of_ofJson? {value : Json} {item : PathItem} (h : ofJson? value = some item) :
    item.operations.map Prod.fst = methodsOf value := by
  simp only [ofJson?, Option.bind_eq_bind, Option.bind_eq_some_iff, Option.pure_def,
    Option.some.injEq] at h
  obtain ⟨fields, hfields, operations, hoperations, _, -, rfl⟩ := h
  rw [methodsOf, hfields]
  exact operations?_eq_some hoperations

end PathItem

/-- The places at which the value of a document declares operations, in the order of the paths and,
for each path, of the methods. -/
def Document.places (root : Json) : List (String × HttpMethod) :=
  match root.member? "paths" with
  | some (.object items) =>
    items.flatMap fun item => (PathItem.methodsOf item.2).map fun method => (item.1, method)
  | _ => []

/-- **No place is counted twice**, because no path is. -/
theorem Document.WasRead.nodup_places {document : Document} (h : document.WasRead) :
    (places document.root).Nodup := by
  rw [places.eq_def]
  split
  next items hitems =>
    have hnames : (Json.object items).Merged := by
      cases hroot : document.root with
      | object fields =>
        rw [hroot] at hitems
        exact (hroot ▸ h.merged).get? hitems
      | _ =>
        rw [hroot] at hitems
        cases hitems
    refine List.nodup_flatMap.mpr ⟨fun item _ => ?_, ?_⟩
    · exact (PathItem.nodup_methodsOf item.2).map fun _ _ heq => (Prod.mk.inj heq).2
    · refine (List.pairwise_map.mp hnames.names).imp fun {first second} hne => ?_
      intro place hfirst hsecond
      obtain ⟨_, -, rfl⟩ := List.mem_map.mp hfirst
      obtain ⟨_, -, heq⟩ := List.mem_map.mp hsecond
      exact hne (Prod.mk.inj heq).1.symm
  next => exact List.nodup_nil

namespace Operation

/-- The place of an operation. -/
def place (operation : Operation) : String × HttpMethod :=
  (operation.path, operation.method)

/-- The declaration of an operation: its path, the parameters that the path shares, its method, and
the record. -/
abbrev Entry := String × List (OrReference ParameterRecord) × HttpMethod × OperationRecord

namespace Entry

/-- The place of a declaration. -/
def place (entry : Entry) : String × HttpMethod :=
  (entry.1, entry.2.2.1)

/-- The tags of a declaration, the default one if there are none. -/
def tags (entry : Entry) : List String :=
  match entry.2.2.2.tags with
  | none => [defaultTag]
  | some [] => [defaultTag]
  | some tags => tags

/-- The declaration is that of the operation. -/
def Makes (root : Json) (entry : Entry) (operation : Operation) : Prop :=
  ofRecord root entry.1 entry.2.1 entry.2.2.1 entry.2.2.2 = .ok operation

variable {root : Json} {entry : Entry} {operation : Operation}

/-- An operation has the place of its declaration. -/
theorem Makes.place_eq (h : entry.Makes root operation) : operation.place = entry.place := by
  simp only [Makes, ofRecord, CompileError.bind_eq_ok] at h
  obtain ⟨_, _, _, _, _, _, h⟩ := h
  obtain rfl := Except.ok.inj h
  rfl

/-- The groups of an operation are the tags of its declaration, each once. -/
theorem Makes.groups_eq (h : entry.Makes root operation) :
    operation.groups = distinct entry.tags := by
  simp only [Makes, ofRecord, CompileError.bind_eq_ok] at h
  obtain ⟨_, _, _, _, _, _, h⟩ := h
  obtain rfl := Except.ok.inj h
  rw [groups, tags.eq_def]
  dsimp only
  cases entry.2.2.2.tags with
  | none => rfl
  | some tags =>
    cases tags with
    | nil => rfl
    | cons tag tags => rfl

end Entry

/-- The declarations of path items that were read from a table have the places of that table. -/
theorem places_of_tableOf? {items : Table Json} {paths : Table PathItem}
    (h : Json.tableOf? PathItem.ofJson? (.object items) = some paths) :
    (declarations paths).map Entry.place =
      items.flatMap fun item => (PathItem.methodsOf item.2).map fun method => (item.1, method) := by
  have hall := Table.forall₂_of_tableOf? h
  clear h
  induction hall with
  | nil => rfl
  | @cons item path items paths hhead _ ih =>
    rw [declarations, List.flatMap_cons, List.map_append, List.flatMap_cons,
      ← PathItem.methods_of_ofJson? hhead.2, hhead.1, List.map_map, List.map_map]
    exact congrArg (_ ++ ·) ih

/-- **The operations of a document are declared at its places**, in the same order. -/
theorem places_declarations {document : Document} (h : document.WasRead) :
    (declarations document.paths).map Entry.place = Document.places document.root := by
  obtain ⟨fields, version, hroot, hlayout⟩ := Document.layout?_of_ofJson h.ofJson
  simp only [Document.layout?, Option.bind_eq_bind, Option.bind_eq_some_iff, Option.pure_def,
    Option.some.injEq] at hlayout
  obtain ⟨_, hfields, paths, hpaths, schemas, -, hdocument⟩ := hlayout
  rw [hroot] at hfields
  obtain rfl := Option.some.inj hfields
  rw [← hdocument, hroot]
  obtain ⟨value, hvalue, htable⟩ := Option.bind_eq_some_iff.mp hpaths
  cases value with
  | object items =>
    rw [places_of_tableOf? htable, Document.places, Json.member?, hvalue]
  | _ => cases htable

/-- The places of the operations are those of the declarations. -/
theorem map_place_of_makes {root : Json} {entries : List Entry} {operations : List Operation}
    (h : List.Forall₂ (Entry.Makes root) entries operations) :
    operations.map place = entries.map Entry.place := by
  induction h with
  | nil => rfl
  | cons hhead _ ih => rw [List.map_cons, List.map_cons, ih, hhead.place_eq]

/-- The tags of the operations, each at its first appearance, are those of the declarations. -/
theorem distinct_groups {root : Json} {entries : List Entry} {operations : List Operation}
    (h : List.Forall₂ (Entry.Makes root) entries operations) :
    distinct (operations.flatMap groups) = distinct (entries.flatMap Entry.tags) := by
  have hgroups : operations.flatMap groups =
      entries.flatMap fun entry => distinct entry.tags := by
    induction h with
    | nil => rfl
    | cons hhead _ ih => rw [List.flatMap_cons, List.flatMap_cons, hhead.groups_eq, ih]
  rw [hgroups, distinct_flatMap_distinct]

/-- The operations that belong to a tag are those whose declarations have it. -/
theorem forall₂_filter_groups {root : Json} {entries : List Entry} {operations : List Operation}
    (h : List.Forall₂ (Entry.Makes root) entries operations) (tag : String) :
    List.Forall₂ (Entry.Makes root) (entries.filter fun entry => tag ∈ entry.tags)
      (operations.filter fun operation => tag ∈ operation.groups) := by
  refine List.rel_filter (fun {entry operation} hmakes => ?_) h
  show decide (tag ∈ entry.tags) = true ↔ decide (tag ∈ operation.groups) = true
  rw [decide_eq_true_iff, decide_eq_true_iff, hmakes.groups_eq, mem_distinct]

end Operation

/-! ## The files of clients -/

/-- The text of a module with an import and a class. -/
theorem TypeScript.text_of_import (item : Import) (c : TypeScript.Class) :
    ({ imports := [item], classes := [c] } : Module).text = item.text ++ "\n" ++ c.text := by
  have hne : item.text.isEmpty = false := by simp [Import.text]
  have himports : String.join [item.text] = item.text := by simp
  rw [Module.text, List.map_singleton, himports, hne]
  simp

namespace Client

/-- The text of the file of a client: an import, if there is something to import, and one class, which
has the prelude and then the methods in their order, an empty line before each. -/
def fileText (className prelude : String) (imports : List String) (functions : List Function) :
    String :=
  (if imports.isEmpty then ""
    else "import type \x7b " ++ String.intercalate ", " imports ++ " \x7d from './types';\n\n") ++
  ("export class " ++ className ++ " \x7b\n" ++ dropFinalLineFeeds prelude ++ "\n" ++
    String.join (functions.map fun function => "\n" ++ function.text 1) ++ "\x7d\n")

theorem fileText_eq (className prelude : String) (imports : List String)
    (functions : List Function) : fileText className prelude imports functions =
      (if imports.isEmpty then ""
        else "import type \x7b " ++ String.intercalate ", " imports ++ " \x7d from './types';\n\n") ++
      ({ name := className, prelude, methods := functions } : TypeScript.Class).text :=
  rfl

theorem text_of_module (className prelude : String) (imports : List String)
    (functions : List Function) :
    ({ imports := if imports.isEmpty then []
        else [{ items := imports, source := typesModule, typeOnly := true }]
       classes := [{ name := className, prelude, methods := functions }] } : Module).text =
      fileText className prelude imports functions := by
  rw [fileText_eq]
  generalize ({ name := className, prelude, methods := functions } : TypeScript.Class) = c
  cases imports with
  | nil => exact String.empty_append.symm
  | cons name names =>
    rw [List.isEmpty_cons, if_neg Bool.false_ne_true, if_neg Bool.false_ne_true, text_of_import,
      Import.text, if_pos rfl, typesModule]
    simp [String.append_assoc]

/-- **What a client is written to**: the file of its class, in which its methods are. -/
theorem IsRun.source_eq {scope : Scope} {final : Progress} {client : Client}
    {functions : List Function} (h : client.IsRun scope final functions) :
    client.source = fileText client.className prelude client.imports functions :=
  h.source.trans (text_of_module _ _ _ _)

end Client

/-! ## From declarations to methods -/

namespace Output

variable {format : Notation} {text : String} {document : Document} {settings : Settings}
  {output : Output}

theorem Run.makes_operations (run : Run document settings output) :
    List.Forall₂ (Operation.Entry.Makes document.root)
      (Operation.declarations document.paths) run.operations :=
  Operation.forall₂_of_ofRecords run.operations_eq

/-- The tags of the clients are those of the operations. -/
theorem Run.tags_eq (run : Run document settings output) :
    output.clients.map Client.tag = distinct (run.operations.flatMap Operation.groups) := by
  have htags := congrArg (List.map Prod.fst) run.groups_eq
  rw [Operation.byTag_eq, List.map_map, List.map_map] at htags
  exact htags.trans (List.map_id _)

/-- The operations of a client are those that belong to its tag. -/
theorem Run.operations_of_mem (run : Run document settings output) {client : Client}
    (hclient : client ∈ output.clients) :
    client.operations = run.operations.filter fun operation => client.tag ∈ operation.groups := by
  have hgroup : (client.tag, client.operations) ∈ Operation.byTag run.operations := by
    rw [← run.groups_eq]
    exact List.mem_map_of_mem hclient
  rw [Operation.byTag_eq] at hgroup
  obtain ⟨tag, -, heq⟩ := List.mem_map.mp hgroup
  obtain ⟨rfl, hoperations⟩ := Prod.mk.inj heq
  exact hoperations.symm

/-- **No operation is lost or repeated.**  The operations are declared at the places of the document,
in the order of paths and methods, each at a place of its own.  The clients correspond to the tags in
the order of their first appearance.  The methods of a client correspond to the declarations that have
its tag, one by one and in the same order: each declaration makes one operation, which keeps its
place, and each operation is assembled to one method, which has its name.  These are the methods of the
one class in the file of the client. -/
theorem generate_conserves (hread : Document.readAs format text = .ok document)
    (h : generate document settings = .ok output) :
    ∃ run : Run document settings output,
      (Operation.declarations document.paths).map Operation.Entry.place =
        Document.places document.root ∧
      (Document.places document.root).Nodup ∧
      output.clients.map Client.tag =
        distinct ((Operation.declarations document.paths).flatMap Operation.Entry.tags) ∧
      ∀ client ∈ output.clients,
        client.operations.map Operation.place =
          ((Operation.declarations document.paths).filter fun entry : Operation.Entry =>
            client.tag ∈ entry.tags).map Operation.Entry.place ∧
        List.Forall₂ (Operation.Entry.Makes document.root)
          ((Operation.declarations document.paths).filter fun entry => client.tag ∈ entry.tags)
          client.operations ∧
        ∃ functions, client.IsRun run.scope run.finished functions ∧
          List.Forall₂ (Client.Assembles run.scope) client.operations functions ∧
          functions.map Function.name = client.operations.map Operation.methodName ∧
          output.files.get? client.fileName = some
            (Client.fileText client.className Client.prelude client.imports functions) := by
  obtain ⟨run⟩ := exists_run h
  have hdocument := Document.wasRead_of_readAs hread
  refine ⟨run, Operation.places_declarations hdocument, hdocument.nodup_places,
    run.tags_eq.trans (Operation.distinct_groups run.makes_operations), fun client hclient => ?_⟩
  obtain ⟨functions, hrun⟩ := run.isRun_client client hclient
  have hmakes := Operation.forall₂_filter_groups run.makes_operations client.tag
  rw [← run.operations_of_mem hclient] at hmakes
  refine ⟨Operation.map_place_of_makes hmakes, hmakes, functions, hrun, hrun.assembles,
    hrun.names_eq, ?_⟩
  rw [run.get?_fileName hclient, hrun.source_eq]

/-- A document with a tag that is repeated, an operation without tags, and one that names the tag
that stands in for none. -/
def sharedTags : String :=
  String.intercalate "\n"
    ["openapi: 3.0.0",
      "paths:",
      " /users:",
      "  post:",
      "   responses: \x7b\x7d",
      "  get:",
      "   tags: [people, admin, people]",
      "   responses: \x7b\x7d",
      " /teams:",
      "  get:",
      "   tags: [default, admin]",
      "   responses: \x7b\x7d"]

theorem generate_conserves_sharedTags :
    ∃ document output, Document.readAs .yaml sharedTags = .ok document ∧
      generate document {} = .ok output ∧
      output.clients.map Client.tag = ["people", "admin", "default"] ∧
      (Operation.declarations document.paths).map Operation.Entry.place =
        [("/users", .get), ("/users", .post), ("/teams", .get)] ∧
      ∃ run : Run document {} output,
        (∀ client ∈ output.clients, client.operations.map Operation.place =
          ((Operation.declarations document.paths).filter fun entry : Operation.Entry =>
            client.tag ∈ entry.tags).map Operation.Entry.place) ∧
        ∃ client ∈ output.clients, client.tag = "default" ∧
          ∃ functions, client.IsRun run.scope run.finished functions ∧
            List.Forall₂ (Client.Assembles run.scope) client.operations functions ∧
            functions.map Function.name = ["postUsers", "getTeams"] ∧
            output.files.get? "DefaultClient.ts" = some
              (Client.fileText "DefaultClient" Client.prelude [] functions) := by
  have hyields : yields .yaml sharedTags {} (fun document output =>
      output.clients.map Client.tag = ["people", "admin", "default"] &&
      Document.places document.root =
        [("/users", .get), ("/users", .post), ("/teams", .get)] &&
      output.clients.any fun client => client.tag = "default" &&
        client.operations.map Operation.methodName = ["postUsers", "getTeams"] &&
        client.className = "DefaultClient" && client.imports = []) = true := by
    decide +kernel
  obtain ⟨document, output, hread, h, hcheck⟩ := exists_of_yields hyields
  simp only [Bool.and_eq_true, List.any_eq_true, decide_eq_true_eq] at hcheck
  obtain ⟨⟨htags, hplaces⟩, client, hclient, ⟨⟨htag, hnames⟩, hclassName⟩, himports⟩ := hcheck
  obtain ⟨run, hdeclared, -, -, hclients⟩ := generate_conserves hread h
  refine ⟨document, output, hread, h, htags, hdeclared.trans hplaces, run,
    fun client hclient => (hclients client hclient).1, client, hclient, htag, ?_⟩
  obtain ⟨-, -, functions, hrun, hassembles, hfunctions, hfile⟩ := hclients client hclient
  rw [Client.fileName, hclassName, himports] at hfile
  exact ⟨functions, hrun, hassembles, hfunctions.trans hnames, hfile⟩

end Output

end ApiScribe
