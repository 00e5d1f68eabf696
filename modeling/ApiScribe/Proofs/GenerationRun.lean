import ApiScribe.Generation
import ApiScribe.Proofs.ClientRun
import ApiScribe.Proofs.DeclarationOfShape
import ApiScribe.Proofs.DocumentNames

/-!
# Runs of a generation

`generate` answers with texts.  What the texts were made from is a `Run`: the declarations, the
operations, and the progress after the declarations and at the end.  Every successful generation
has one (`exists_run`), and what is proved about declarations and clients is proved about the parts
of a run.

The session knows the document and the settings as they were given (`Run.root_eq` and the lemmas
around it).  Declaring shapes takes nothing back, and keeps the names of hoisted enumerations
apart from each other and from those of shapes (`Run.wellNamed`).  Writing clients comes after that
and hoists nothing (`Run.inlineEnums_eq`), and no client overwrites the file of the declarations
(`Run.get?_typesFile`).
-/

namespace ApiScribe

open TypeScript

namespace Output

/-- What a successful generation passed through. -/
structure Run (document : Document) (settings : Settings) (output : Output) where
  scope : Scope
  declarations : List Declaration
  declared : Progress
  operations : List Operation
  finished : Progress
  scope_eq : Scope.of document settings document.namedShapes = .ok scope
  declarations_eq :
    declarationsOf document.namedShapes scope {} = (.ok declarations, declared)
  operations_eq : Operation.ofDocument document = .ok operations
  clients_eq :
    clientsOf (Operation.byTag operations) scope declared = (.ok output.clients, finished)
  files_eq : output.files = filesOf declarations output.clients
  diagnostics_eq : output.diagnostics = finished.diagnostics

/-- **Every successful generation has a run.** -/
theorem exists_run {document : Document} {settings : Settings} {output : Output}
    (h : generate document settings = .ok output) : Nonempty (Run document settings output) := by
  rw [generate] at h
  cases hscope : Scope.of document settings document.namedShapes with
  | error error =>
    rw [hscope] at h
    cases h
  | ok scope =>
    rw [hscope] at h
    simp only [bind, Except.bind] at h
    split at h
    next declarations clients finished hshapes =>
      cases h
      simp only [ofShapes, Session.bind_eq_ok, Session.pure_eq_ok, Session.onRoot_eq_ok,
        Prod.mk.injEq] at hshapes
      obtain ⟨_, declared, hdeclarations, operations, _, ⟨hoperations, rfl⟩, _, _, hclients,
        ⟨rfl, rfl⟩, rfl⟩ := hshapes
      exact ⟨⟨scope, _, declared, operations, _, hscope, hdeclarations, hoperations, hclients, rfl,
        rfl⟩⟩
    next => cases h

/-- Does a text lead to files, for a document and an output that pass a check? -/
def yields (format : Notation) (text : String) (settings : Settings)
    (check : Document → Output → Bool) : Bool :=
  match Document.readAs format text with
  | .error _ => false
  | .ok document =>
    match generate document settings with
    | .error _ => false
    | .ok output => check document output

theorem exists_of_yields {format : Notation} {text : String} {settings : Settings}
    {check : Document → Output → Bool} (h : yields format text settings check = true) :
    ∃ document output, Document.readAs format text = .ok document ∧
      generate document settings = .ok output ∧ check document output = true := by
  rw [yields] at h
  split at h
  · cases h
  next document hread =>
    split at h
    · cases h
    next output hgenerate => exact ⟨document, output, hread, hgenerate, h⟩

/-- Do the declarations of a document pass a check? -/
def declares (document : Document) (settings : Settings) (check : List Declaration → Bool) : Bool :=
  match Scope.of document settings document.namedShapes with
  | .error _ => false
  | .ok scope =>
    match declarationsOf document.namedShapes scope {} with
    | (.error _, _) => false
    | (.ok declarations, _) => check declarations

/-- The declarations of a run are those of the document. -/
theorem Run.of_declares {document : Document} {settings : Settings} {output : Output}
    (run : Run document settings output) {check : List Declaration → Bool}
    (h : declares document settings check = true) : check run.declarations = true := by
  rw [declares, run.scope_eq] at h
  simp only [run.declarations_eq] at h
  exact h

theorem eq_of_scope_of {document : Document} {settings : Settings} {shapes : List NamedShape}
    {scope : Scope} (h : Scope.of document settings shapes = .ok scope) :
    ∃ bindings, Binding.collect document.root shapes = .ok bindings ∧
      scope = ⟨document.root, settings, bindings, shapes.map NamedShape.name⟩ := by
  rw [Scope.of] at h
  cases hbindings : Binding.collect document.root shapes with
  | error error =>
    rw [hbindings] at h
    cases h
  | ok bindings =>
    rw [hbindings] at h
    cases h
    exact ⟨bindings, rfl, rfl⟩

/-! ## What holds of declaring shapes -/

section Holds

variable {P : ∀ {α : Type}, Session α → Prop}

theorem inlineDeclarations_holds (hP : Session.Closed P) (inlines : List InlineEnum) :
    P (inlineDeclarations inlines) := by
  induction inlines with
  | nil => exact hP.pure _
  | cons inline inlines ih =>
    exact hP.bind (inline.declaration_holds hP) fun _ => hP.bind ih fun _ => hP.pure _

variable (hP : Session.ClosedWithLookups P)
include hP

theorem shapeDeclarations_holds {named : NamedShape}
    (hhoist : Shape.HoistHolds P (some named.name)) : P (shapeDeclarations named) :=
  hP.bind hP.inlineEnums fun _ =>
    hP.bind (Shape.declaration_holds_of_lookups hP hhoist named.shape) fun _ =>
      hP.bind hP.inlineEnums fun _ =>
        hP.bind (inlineDeclarations_holds hP.toClosed _) fun _ => hP.pure _

/-- **What holds of all steps and look-ups holds of declaring any shapes.** -/
theorem declarationsOf_holds {shapes : List NamedShape}
    (hhoist : ∀ named ∈ shapes, Shape.HoistHolds P (some named.name)) :
    P (declarationsOf shapes) := by
  induction shapes with
  | nil => exact hP.pure _
  | cons named shapes ih =>
    obtain ⟨hnamed, hshapes⟩ := List.forall_mem_cons.mp hhoist
    exact hP.bind (shapeDeclarations_holds hP hnamed) fun _ =>
      hP.bind (ih hshapes) fun _ => hP.pure _

end Holds

theorem declarationsOf_keeps {R : Progress → Progress → Prop} {scope : Scope}
    (hR : Session.Stable R) {shapes : List NamedShape}
    (hhoist : ∀ named ∈ shapes, Shape.HoistKeeps R scope (some named.name)) :
    Session.Keeps R scope (declarationsOf shapes) :=
  declarationsOf_holds (hR.closed scope) fun named hnamed => (hhoist named hnamed).holds

/-- Declaring shapes takes nothing back. -/
theorem declarationsOf_keeps_le (scope : Scope) (shapes : List NamedShape) :
    Session.Keeps (fun before after => before ≤ after) scope (declarationsOf shapes) :=
  declarationsOf_keeps Progress.stable_le fun named _ =>
    Shape.hoistKeeps_le scope (some named.name)

/-! ## Clients and files -/

theorem clientsOf_keeps {R : Progress → Progress → Prop} {scope : Scope} (hR : Session.Stable R)
    (hclaim : ∀ progress requested, R progress (Progress.claimClientName progress requested).2)
    (groups : Table (List Operation)) : Session.Keeps R scope (clientsOf groups) := by
  induction groups with
  | nil => exact hR.pure _
  | cons group groups ih =>
    exact hR.bind (Client.ofOperations_keeps hR hclaim group.1 group.2) fun _ =>
      hR.bind ih fun _ => hR.pure _

/-- There is one client for each group, and each comes from a run. -/
theorem isRun_of_clientsOf {scope : Scope} {final before after : Progress}
    {groups : Table (List Operation)} {clients : List Client} (hle : after ≤ final)
    (h : clientsOf groups scope before = (.ok clients, after)) :
    clients.map (fun client => (client.tag, client.operations)) = groups ∧
      ∀ client ∈ clients, ∃ functions, client.IsRun scope final functions := by
  induction groups generalizing clients before with
  | nil =>
    obtain ⟨rfl, -⟩ := Session.pure_eq_ok.mp h
    exact ⟨rfl, fun _ hmem => absurd hmem List.not_mem_nil⟩
  | cons group groups ih =>
    simp only [clientsOf, Session.bind_eq_ok, Session.pure_eq_ok] at h
    obtain ⟨client, _, hclient, others, _, hothers, rfl, rfl⟩ := h
    have hrest := (clientsOf_keeps Progress.stable_le Client.le_claimClientName groups).of_eq_ok
      hothers
    obtain ⟨hgroup, hrun⟩ := Client.isRun_of_ofOperations (le_trans hrest hle) hclient
    obtain ⟨hgroups, hruns⟩ := ih hothers
    exact ⟨congrArg₂ List.cons hgroup hgroups, List.forall_mem_cons.mpr ⟨hrun, hruns⟩⟩

theorem get?_filesOf {declarations : List Declaration} {clients : List Client} {name : String}
    (h : ∀ client ∈ clients, client.fileName ≠ name) :
    (filesOf declarations clients).get? name =
      Table.get? [(typesFile, { types := declarations : Module }.text)] name := by
  rw [filesOf]
  generalize [(typesFile, { types := declarations : Module }.text)] = files
  induction clients generalizing files with
  | nil => rfl
  | cons client clients ih =>
    obtain ⟨hhead, htail⟩ := List.forall_mem_cons.mp h
    rw [List.foldl_cons, ih htail, Table.get?_put_of_ne _ _ hhead]

namespace Run

variable {document : Document} {settings : Settings} {output : Output}
  (run : Run document settings output)

theorem root_eq : run.scope.root = document.root := by
  obtain ⟨bindings, -, hscope⟩ := eq_of_scope_of run.scope_eq
  rw [hscope]

theorem settings_eq : run.scope.settings = settings := by
  obtain ⟨bindings, -, hscope⟩ := eq_of_scope_of run.scope_eq
  rw [hscope]

theorem shapeNames_eq :
    run.scope.shapeNames = document.namedShapes.map NamedShape.name := by
  obtain ⟨bindings, -, hscope⟩ := eq_of_scope_of run.scope_eq
  rw [hscope]

theorem bindings_eq :
    Binding.collect document.root document.namedShapes = .ok run.scope.bindings := by
  obtain ⟨bindings, hbindings, hscope⟩ := eq_of_scope_of run.scope_eq
  rw [hscope]
  exact hbindings

/-- After the declarations, the hoisted enumerations have names of their own. -/
theorem wellNamed : run.declared.WellNamed run.scope.shapeNames :=
  (declarationsOf_keeps (Progress.stable_wellNamed run.scope.shapeNames) fun _ _ =>
    Shape.HoistKeeps.of_forall fun _ requested values hwell =>
      hwell.hoist requested values).of_eq_ok run.declarations_eq Progress.wellNamed_empty

theorem declared_le_finished : run.declared ≤ run.finished :=
  (clientsOf_keeps Progress.stable_le Client.le_claimClientName _).of_eq_ok run.clients_eq

/-- **Writing clients hoists nothing**, and the declarations are complete before. -/
theorem inlineEnums_eq : run.finished.inlineEnums = run.declared.inlineEnums :=
  (clientsOf_keeps Progress.stable_inlineEnums Client.inlineEnums_claimClientName _).of_eq_ok
    run.clients_eq

theorem isRun_client : ∀ client ∈ output.clients,
    ∃ functions, client.IsRun run.scope run.finished functions :=
  (isRun_of_clientsOf (le_refl _) run.clients_eq).2

/-- **The declarations of the run are what the file of declarations holds.** -/
theorem get?_typesFile :
    output.files.get? typesFile = some { types := run.declarations : Module }.text := by
  rw [run.files_eq, get?_filesOf]
  · exact if_pos rfl
  · intro client hclient
    obtain ⟨functions, hrun⟩ := run.isRun_client client hclient
    exact hrun.fileName_ne

end Run

end Output

end ApiScribe
