import ApiScribe.Proofs.GenerationRun
import ApiScribe.Proofs.Grouping

/-!
# The members of client classes

The methods of a class are named after operations, and no two operations of a document have the same
method name (`nodup_of_ofRecords`).  The operations of one tag are some of those of the document, in
their order (`sublist_of_mem_byTag`), so the methods of a class have different names.

A class has other members besides, which its prelude declares, and the method names are not compared
with those.  `generate_members` says what this amounts to: the members of all classes are different
exactly when no operation has the method name of a member of the prelude.
-/

namespace ApiScribe

open TypeScript

/-! ## Operations and their groups -/

namespace Operation

/-- **No two operations of a document have the same method name**, nor one that was in use. -/
theorem nodup_of_ofRecords {root : Json} {used : List String}
    {records : List (String × List (OrReference ParameterRecord) × HttpMethod × OperationRecord)}
    {operations : List Operation} (h : ofRecords root used records = .ok operations) :
    (operations.map methodName).Nodup ∧ ∀ operation ∈ operations, operation.methodName ∉ used := by
  induction records generalizing used operations with
  | nil =>
    cases h
    exact ⟨List.nodup_nil, fun _ hmem => absurd hmem List.not_mem_nil⟩
  | cons record records ih =>
    obtain ⟨path, shared, method, declared⟩ := record
    rw [ofRecords] at h
    cases hfirst : ofRecord root path shared method declared with
    | error error =>
      rw [hfirst] at h
      cases h
    | ok first =>
      rw [hfirst] at h
      simp only [bind, Except.bind] at h
      split at h
      · cases h
      next hused =>
        split at h
        · cases h
        next others hothers =>
          cases h
          obtain ⟨hnodup, hnew⟩ := ih hothers
          constructor
          · refine List.nodup_cons.mpr ⟨?_, hnodup⟩
            intro hmem
            obtain ⟨other, hother, heq⟩ := List.mem_map.mp hmem
            exact hnew other hother (heq ▸ List.mem_cons_self)
          · refine List.forall_mem_cons.mpr ⟨?_, ?_⟩
            · intro hmem
              exact hused (List.contains_iff_mem.mpr hmem)
            · intro other hother hmem
              exact hnew other hother (List.mem_cons_of_mem _ hmem)

end Operation

/-- The value is in one of the groups. -/
def Table.Groups {α : Type} (table : Table (List α)) (value : α) : Prop :=
  ∃ group ∈ table, value ∈ group.2

namespace Operation

variable {operation : Operation} {operations : List Operation}

/-- **The operations of a tag are operations of the document, in their order**, each once. -/
theorem sublist_of_mem_byTag {group : String × List Operation} (h : group ∈ byTag operations) :
    group.2.Sublist operations := by
  rw [byTag_eq] at h
  obtain ⟨tag, -, rfl⟩ := List.mem_map.mp h
  exact List.filter_sublist

/-- **The groups together hold the operations of the document.** -/
theorem groups_byTag : (byTag operations).Groups operation ↔ operation ∈ operations := by
  constructor
  · rintro ⟨group, hgroup, hmem⟩
    exact (sublist_of_mem_byTag hgroup).subset hmem
  · intro hmem
    obtain ⟨tag, htag⟩ := List.exists_mem_of_ne_nil _ operation.groups_ne_nil
    rw [byTag_eq]
    refine ⟨_, List.mem_map_of_mem
      (mem_distinct.mpr (List.mem_flatMap.mpr ⟨operation, hmem, htag⟩)), ?_⟩
    exact List.mem_filter.mpr ⟨hmem, decide_eq_true htag⟩

end Operation

/-! ## Members of classes -/

namespace Client

/-- Each member of the prelude is declared at the beginning of a line, after its modifiers. -/
theorem exists_preludeLine : ∀ name ∈ preludeMembers, ∃ line ∈ preludeLines,
    ∃ modifiers ∈ ["  ", "  private readonly ", "  protected async "],
      (modifiers ++ name).toList <+: line.toList := by
  decide +kernel

/-- The names of the members of a class with these methods. -/
def memberNames (functions : List Function) : List String :=
  preludeMembers ++ functions.map Function.name

variable {scope : Scope} {final : Progress} {client : Client} {functions : List Function}

/-- Methods have the names of their operations. -/
theorem names_of_methodsOf {operations : List Operation}
    (h : List.Forall₂ (MethodOf scope final) operations functions) :
    functions.map Function.name = operations.map Operation.methodName := by
  induction h with
  | nil => rfl
  | cons hhead _ ih => exact congrArg₂ List.cons hhead.name ih

theorem IsRun.names_eq (h : client.IsRun scope final functions) :
    functions.map Function.name = client.operations.map Operation.methodName :=
  names_of_methodsOf h.methodsOf

/-- If the methods have different names, then the members have unless a method has the name of a
member of the prelude. -/
theorem nodup_memberNames_iff (hnodup : (functions.map Function.name).Nodup) :
    (memberNames functions).Nodup ↔
      ∀ name ∈ functions.map Function.name, name ∉ preludeMembers := by
  rw [memberNames, List.nodup_append_comm, List.nodup_append']
  constructor
  · intro h name hmem hprelude
    exact h.2.2 hmem hprelude
  · intro h
    exact ⟨hnodup, by decide, fun name hmem hprelude => h name hmem hprelude⟩

end Client

namespace Output

variable {format : Notation} {text : String} {document : Document} {settings : Settings}
  {output : Output}

/-- The clients of a run are those of the groups of its operations. -/
theorem Run.groups_eq (run : Run document settings output) :
    output.clients.map (fun client => (client.tag, client.operations)) =
      Operation.byTag run.operations :=
  (isRun_of_clientsOf (le_refl _) run.clients_eq).1

/-- The methods of a class have different names. -/
theorem Run.nodup_methodNames (run : Run document settings output) {client : Client}
    (hclient : client ∈ output.clients) : (client.operations.map Operation.methodName).Nodup := by
  have hgroup : (client.tag, client.operations) ∈ Operation.byTag run.operations := by
    rw [← run.groups_eq]
    exact List.mem_map_of_mem hclient
  exact ((Operation.sublist_of_mem_byTag hgroup).map Operation.methodName).nodup
    (Operation.nodup_of_ofRecords run.operations_eq).1

/-- Every operation of a run is an operation of a client, and the other way round. -/
theorem Run.mem_operations_iff (run : Run document settings output) {operation : Operation} :
    operation ∈ run.operations ↔ ∃ client ∈ output.clients, operation ∈ client.operations := by
  rw [← Operation.groups_byTag, ← run.groups_eq]
  constructor
  · rintro ⟨group, hgroup, hmem⟩
    obtain ⟨client, hclient, rfl⟩ := List.mem_map.mp hgroup
    exact ⟨client, hclient, hmem⟩
  · rintro ⟨client, hclient, hmem⟩
    exact ⟨_, List.mem_map_of_mem hclient, hmem⟩

theorem Run.nodup_memberNames_iff (run : Run document settings output) :
    (∀ client ∈ output.clients, ∀ functions, client.IsRun run.scope run.finished functions →
        (Client.memberNames functions).Nodup) ↔
      ∀ operation ∈ run.operations, operation.methodName ∉ Client.preludeMembers := by
  constructor
  · intro h operation hoperation
    obtain ⟨client, hclient, hmem⟩ := run.mem_operations_iff.mp hoperation
    obtain ⟨functions, hrun⟩ := run.isRun_client client hclient
    have hnodup := run.nodup_methodNames hclient
    rw [← hrun.names_eq] at hnodup
    refine (Client.nodup_memberNames_iff hnodup).mp (h client hclient functions hrun) _ ?_
    rw [hrun.names_eq]
    exact List.mem_map_of_mem hmem
  · intro h client hclient functions hrun
    have hnodup := run.nodup_methodNames hclient
    rw [← hrun.names_eq] at hnodup
    refine (Client.nodup_memberNames_iff hnodup).mpr ?_
    intro name hname
    rw [hrun.names_eq] at hname
    obtain ⟨operation, hmem, rfl⟩ := List.mem_map.mp hname
    exact h operation (run.mem_operations_iff.mpr ⟨client, hclient, hmem⟩)

/-- **The members of classes.**  The methods of a class always have different names.  All members
of all classes have different names exactly when no operation of the document has the method name
of a member of the prelude. -/
theorem generate_members (h : generate document settings = .ok output) :
    ∃ run : Run document settings output,
      (∀ client ∈ output.clients, ∃ functions, client.IsRun run.scope run.finished functions ∧
        (functions.map Function.name).Nodup) ∧
      ((∀ client ∈ output.clients, ∀ functions, client.IsRun run.scope run.finished functions →
          (Client.memberNames functions).Nodup) ↔
        ∀ operation ∈ run.operations, operation.methodName ∉ Client.preludeMembers) := by
  obtain ⟨run⟩ := exists_run h
  refine ⟨run, ?_, run.nodup_memberNames_iff⟩
  intro client hclient
  obtain ⟨functions, hrun⟩ := run.isRun_client client hclient
  refine ⟨functions, hrun, ?_⟩
  rw [hrun.names_eq]
  exact run.nodup_methodNames hclient

/-- A document with one operation of the given name. -/
def operationNamed (name : String) : String :=
  String.intercalate "\n"
    ["openapi: 3.0.0",
      "paths:",
      " /users:",
      "  get:",
      "   operationId: " ++ name,
      "   responses:",
      "    default:",
      "     description: none"]

theorem generate_members_listUsers :
    ∃ document output, Document.readAs .yaml (operationNamed "listUsers") = .ok document ∧
      generate document {} = .ok output ∧ output.clients ≠ [] ∧
      ∃ run : Run document {} output, ∀ client ∈ output.clients,
        ∃ functions, client.IsRun run.scope run.finished functions ∧
          (functions.map Function.name).Nodup := by
  have hyields : yields .yaml (operationNamed "listUsers") {}
      (fun _ output => !output.clients.isEmpty) = true := by decide +kernel
  obtain ⟨document, output, hread, h, hclients⟩ := exists_of_yields hyields
  obtain ⟨run, hnodup, -⟩ := generate_members h
  refine ⟨document, output, hread, h, ?_, run, hnodup⟩
  intro hnil
  rw [hnil] at hclients
  cases hclients

/-- **An operation may be called like a member of the prelude**: a class then has two members of
that name. -/
theorem exists_repeated_member :
    ∃ document output, Document.readAs .yaml (operationNamed "request") = .ok document ∧
      generate document {} = .ok output ∧
      ∃ run : Run document {} output, ∃ client ∈ output.clients,
        ∃ functions, client.IsRun run.scope run.finished functions ∧
          ¬ (Client.memberNames functions).Nodup := by
  have hyields : yields .yaml (operationNamed "request") {} (fun document _ =>
      match Operation.ofDocument document with
      | .ok operations => operations.any fun operation =>
          Client.preludeMembers.contains operation.methodName
      | .error _ => false) = true := by decide +kernel
  obtain ⟨document, output, hread, h, hoperations⟩ := exists_of_yields hyields
  obtain ⟨run⟩ := exists_run h
  rw [run.operations_eq] at hoperations
  obtain ⟨operation, hoperation, hname⟩ := List.any_eq_true.mp hoperations
  refine ⟨document, output, hread, h, run, ?_⟩
  by_contra hall
  simp only [not_exists, not_and, not_not] at hall
  exact run.nodup_memberNames_iff.mp hall operation hoperation (List.contains_iff_mem.mp hname)

end Output

end ApiScribe
