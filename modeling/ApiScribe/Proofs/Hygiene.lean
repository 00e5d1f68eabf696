import ApiScribe.Proofs.ClassMembers
import ApiScribe.Proofs.ShapeReferences

/-!
# Names that meet in the file of a client

Three kinds of names meet in the file of a client: the declared types that it imports, the class that
it exports, and the parameters of the methods.  The code in the file besides uses names of the
language's own library.  One would like these to be kept apart (`Client.Hygienic`).

Each kind of name is chosen without the others.  A class name is compared with those of other classes,
a parameter with the other parameters of its method, and declared types keep their names from the
document.  So whether a file is hygienic depends on the document, and `generate_hygiene` says how: no
operation may refer to a shape that is called like the class or like one of the global names, and no
parameter in a path with placeholders may ask for the name of a function that is called there.
-/

namespace ApiScribe

open TypeScript

namespace Client

/-! ## Global names -/

/-- The global names that the code of a client uses, as values or as built-in types: those of the
prelude, the type of dates, and a function that methods call. -/
def globals : List String :=
  ["Promise", "Record", "Date", "URL", "Error", "Object", "Array", "String", "JSON",
    "encodeURIComponent", "globalThis"]

/-- The global functions that the body of a method calls for a placeholder. -/
def calledGlobals : List String :=
  ["encodeURIComponent", "String"]

/-- Somewhere in the expression a function is called by the name. -/
inductive Expr.Calls (name : String) : Expr → Prop
  | here {types : List Ty} {arguments : List Expr} : Calls name (.call (.ident name) types arguments)
  | callee {callee : Expr} {types : List Ty} {arguments : List Expr} (h : Calls name callee) :
    Calls name (.call callee types arguments)
  | argument {callee : Expr} {types : List Ty} {arguments : List Expr} {argument : Expr}
    (hmem : argument ∈ arguments) (h : Calls name argument) :
    Calls name (.call callee types arguments)
  | entry {entries : List (String × Expr)} {entry : String × Expr} (hmem : entry ∈ entries)
    (h : Calls name entry.2) : Calls name (.object entries)
  | object {object : Expr} {member : String} (h : Calls name object) :
    Calls name (.member object member)
  | part {parts : List TemplatePart} {expression : Expr} (hmem : .value expression ∈ parts)
    (h : Calls name expression) : Calls name (.template parts)

/-- The body of the method calls a function by the name. -/
def Calls (name : String) (function : Function) : Prop :=
  ∃ expression, .return (some expression) ∈ function.body ∧ Expr.Calls name expression

variable {name : String}

theorem calls_encoded_iff {parameter : String} :
    Expr.Calls name (encoded parameter) ↔ name ∈ calledGlobals := by
  constructor
  · intro h
    cases h with
    | here => exact List.mem_cons_self
    | callee h => cases h
    | argument hmem h =>
      rw [List.mem_singleton.mp hmem] at h
      cases h with
      | here => exact List.mem_cons_of_mem _ List.mem_cons_self
      | callee h => cases h
      | argument hmem h =>
        rw [List.mem_singleton.mp hmem] at h
        cases h
  · intro h
    rcases List.mem_pair.mp h with rfl | rfl
    · exact .here
    · exact .argument (List.mem_singleton_self _) .here

end Client

/-- The path of the operation has a placeholder. -/
def Operation.HasPlaceholder (operation : Operation) : Prop :=
  ∃ placeholder, .placeholder placeholder ∈ PathSegment.ofPath operation.path

namespace Client

variable {scope : Scope} {final : Progress} {client : Client} {operation : Operation}
  {function : Function} {functions : List Function} {name : String}

/-- The path expression calls functions for its placeholders. -/
theorem calls_pathExpression_iff {declared : List OperationParameter}
    {played : List (Role × String)} {path : String} {segments : List PathSegment}
    {parts : List TemplatePart} (h : List.Forall₂ (IsPartOf declared played) segments parts) :
    Expr.Calls name (pathExpression path parts) ↔
      name ∈ calledGlobals ∧ ∃ placeholder, .placeholder placeholder ∈ segments := by
  rw [pathExpression]
  constructor
  · intro hcalls
    split at hcalls
    next =>
      cases hcalls with
      | part hmem hcalls =>
        obtain ⟨segment, hsegment, hpart⟩ := exists_of_forall₂_right h hmem
        cases hpart with
        | declared | free => exact ⟨calls_encoded_iff.mp hcalls, _, hsegment⟩
    next => cases hcalls
  · rintro ⟨hname, placeholder, hsegment⟩
    obtain ⟨part, hmem, hpart⟩ := exists_of_forall₂_left h hsegment
    cases hpart with
    | declared | free =>
      rw [if_pos (List.any_eq_true.mpr ⟨_, hmem, rfl⟩)]
      exact .part hmem (calls_encoded_iff.mpr hname)

/-- Options are passed on without a call. -/
theorem not_calls_options {played : List (Role × String)} {roles : List Role}
    {options : List (String × Expr)} (h : List.Forall₂ (IsOptionOf played) roles options) :
    ¬ Expr.Calls name (.object options) := by
  intro hcalls
  cases hcalls with
  | entry hmem hcalls =>
    obtain ⟨role, -, hoption⟩ := exists_of_forall₂_right h hmem
    cases hoption <;> cases hcalls

/-- **What the body of a method calls**: two functions, if there is a placeholder in the path. -/
theorem Assembles.calls_iff (h : Assembles scope operation function) :
    Calls name function ↔ name ∈ calledGlobals ∧ operation.HasPlaceholder := by
  obtain ⟨response, -, -, parts, options, hparts, hoptions, hbody⟩ := h.result
  rw [Operation.HasPlaceholder, ← calls_pathExpression_iff hparts, Calls, hbody]
  constructor
  · rintro ⟨expression, hmem, hcalls⟩
    obtain rfl := Option.some.inj (Statement.return.inj (List.mem_singleton.mp hmem))
    cases hcalls with
    | callee hcalls =>
      cases hcalls with
      | object hcalls => cases hcalls
    | argument hmem hcalls =>
      rcases List.mem_append.mp hmem with hmem | hmem
      · rcases List.mem_pair.mp hmem with rfl | rfl
        · cases hcalls
        · exact hcalls
      · split at hmem
        · cases hmem
        · rw [List.mem_singleton.mp hmem] at hcalls
          exact absurd hcalls (not_calls_options hoptions)
  · intro hcalls
    exact ⟨_, List.mem_singleton_self _, .argument
      (List.mem_append_left _ (List.mem_cons_of_mem _ (List.mem_singleton_self _))) hcalls⟩

/-! ## Hygiene -/

/-- No two names in the file of the client get into each other's way: no imported type is called like
the class or like a global name, and no parameter like a function that its method calls. -/
structure Hygienic (client : Client) (functions : List Function) : Prop where
  className : client.className ∉ client.imports
  globals : ∀ name ∈ client.imports, name ∉ globals
  parameters : ∀ function ∈ functions, ∀ parameter ∈ function.parameters,
    ¬ Calls parameter.name function

end Client

/-- The operation brings no name into a client that is in the way there. -/
structure Operation.IsHarmless (root : Json) (settings : Settings) (className : String)
    (operation : Operation) : Prop where
  className : ¬ operation.RefersTo root className
  globals : ∀ name ∈ Client.globals, ¬ operation.RefersTo root name
  parameters : operation.HasPlaceholder → ∀ role ∈ operation.roles,
    role.requestedName settings ∉ Client.calledGlobals

namespace Client

variable {scope : Scope} {final : Progress} {client : Client} {operation : Operation}
  {function : Function} {functions : List Function}

/-- A name with a number is none of the called ones. -/
theorem eq_requested_of_mem_calledGlobals {base : String} {number : Nat}
    (h : Naming.candidate base number ∈ calledGlobals) : base ∈ calledGlobals := by
  have hletters : ∀ name ∈ calledGlobals, name.toList.Forall fun c => c.isDigit = false := by
    decide
  obtain rfl : number = 0 :=
    Naming.eq_zero_of_forall_not_isDigit (List.forall_iff_forall_mem.mp (hletters _ h))
  exact h

/-- The parameters of a method are called like functions that it calls exactly if a role asks for
such a name. -/
theorem Assembles.parameters_iff (h : Assembles scope operation function) :
    (∀ parameter ∈ function.parameters, ¬ Calls parameter.name function) ↔
      (operation.HasPlaceholder → ∀ role ∈ operation.roles,
        role.requestedName scope.settings ∉ calledGlobals) := by
  simp only [h.calls_iff, not_and]
  constructor
  · intro hparameters hplaceholder role hrole hname
    obtain ⟨parameter, hmem, heq⟩ := List.mem_map.mp (h.requested role hrole)
    exact hparameters parameter hmem (heq ▸ hname) hplaceholder
  · intro hroles parameter hmem hname hplaceholder
    obtain ⟨role, hrole, hplayed⟩ := exists_of_forall₂_right h.parameters hmem
    obtain ⟨number, hnumber⟩ := hplayed.name
    rw [hnumber] at hname
    exact hroles hplaceholder role hrole (eq_requested_of_mem_calledGlobals hname)

/-- **A client is hygienic exactly if its operations bring in no name that is in the way.** -/
theorem IsRun.hygienic_iff (h : client.IsRun scope final functions) :
    client.Hygienic functions ↔ ∀ operation ∈ client.operations,
      operation.IsHarmless scope.root scope.settings client.className := by
  constructor
  · intro hygienic operation hmem
    obtain ⟨function, hfunction, hassembles⟩ := exists_of_forall₂_left h.assembles hmem
    refine ⟨fun hrefers => ?_, fun name hname hrefers => ?_, ?_⟩
    · exact hygienic.className (h.mem_imports_iff.mpr ⟨operation, hmem, hrefers⟩)
    · exact hygienic.globals name (h.mem_imports_iff.mpr ⟨operation, hmem, hrefers⟩) hname
    · exact hassembles.parameters_iff.mp (hygienic.parameters function hfunction)
  · intro hharmless
    refine ⟨fun hmem => ?_, fun name hmem hname => ?_, fun function hfunction => ?_⟩
    · obtain ⟨operation, hoperation, hrefers⟩ := h.mem_imports_iff.mp hmem
      exact (hharmless operation hoperation).className hrefers
    · obtain ⟨operation, hoperation, hrefers⟩ := h.mem_imports_iff.mp hmem
      exact (hharmless operation hoperation).globals name hname hrefers
    · obtain ⟨operation, hoperation, hassembles⟩ :=
        exists_of_forall₂_right h.assembles hfunction
      exact hassembles.parameters_iff.mpr (hharmless operation hoperation).parameters

end Client

namespace Output

variable {format : Notation} {text : String} {document : Document} {settings : Settings}
  {output : Output}

/-- **Names that meet in the file of a client.**  A client imports the shapes that its operations
refer to.  It is hygienic exactly if no operation refers to a shape with the name of the class or with
a global name, and no parameter of a path with placeholders asks for the name of a function that is
called for them. -/
theorem generate_hygiene (h : generate document settings = .ok output) :
    ∃ run : Run document settings output, ∀ client ∈ output.clients,
      ∃ functions, client.IsRun run.scope run.finished functions ∧
        (∀ name, name ∈ client.imports ↔
          ∃ operation ∈ client.operations, operation.RefersTo document.root name) ∧
        (client.Hygienic functions ↔ ∀ operation ∈ client.operations,
          operation.IsHarmless document.root settings client.className) := by
  obtain ⟨run⟩ := exists_run h
  refine ⟨run, fun client hclient => ?_⟩
  obtain ⟨functions, hrun⟩ := run.isRun_client client hclient
  refine ⟨functions, hrun, fun name => ?_, ?_⟩
  · rw [hrun.mem_imports_iff, run.root_eq]
  · rw [hrun.hygienic_iff, run.root_eq, run.settings_eq]

/-- A document with one operation, on a path that is a placeholder; it answers with one of two named
shapes. -/
def eitherShape (placeholder first second : String) : String :=
  String.intercalate "\n"
    ["openapi: 3.0.0",
      "paths:",
      " /\x7b" ++ placeholder ++ "\x7d:",
      "  get:",
      "   responses:",
      "    200:",
      "     content:",
      "      application/json:",
      "       schema:",
      "        oneOf:",
      "        - $ref: '#/components/schemas/" ++ first ++ "'",
      "        - $ref: '#/components/schemas/" ++ second ++ "'",
      "components:",
      " schemas:",
      "  " ++ first ++ ":",
      "   type: string",
      "  " ++ second ++ ":",
      "   type: string"]

/-- The names that meet in the file of a client: the class, the imports and, for every operation with
its path, the names that its parameters ask for. -/
def meetingNames (settings : Settings) (client : Client) :
    String × List String × List (String × List String) :=
  (client.className, client.imports, client.operations.map fun operation =>
    (operation.path, operation.roles.map fun role => role.requestedName settings))

theorem generate_hygiene_catOrDog :
    ∃ document output, Document.readAs .yaml (eitherShape "id" "Cat" "Dog") = .ok document ∧
      generate document {} = .ok output ∧ output.clients ≠ [] ∧
      ∃ run : Run document {} output, ∀ client ∈ output.clients,
        ∃ functions, client.IsRun run.scope run.finished functions ∧
          client.imports = ["Cat", "Dog"] ∧ client.Hygienic functions := by
  have hyields : yields .yaml (eitherShape "id" "Cat" "Dog") {} (fun _ output =>
      output.clients.map (meetingNames {}) =
        [("DefaultClient", ["Cat", "Dog"], [("/\x7bid\x7d", ["id"])])]) = true := by
    decide +kernel
  obtain ⟨document, output, hread, h, hcheck⟩ := exists_of_yields hyields
  have hnames := of_decide_eq_true hcheck
  obtain ⟨run, hclients⟩ := generate_hygiene h
  have hclient : output.clients ≠ [] := by
    intro hnil
    rw [hnil] at hnames
    cases hnames
  refine ⟨document, output, hread, h, hclient, run, fun client hmem => ?_⟩
  obtain ⟨functions, hrun, himports, hhygienic⟩ := hclients client hmem
  have hmeeting := hnames ▸ List.mem_map_of_mem (f := meetingNames {}) hmem
  simp only [meetingNames, List.mem_singleton, Prod.mk.injEq] at hmeeting
  obtain ⟨hclass, hlist, hoperations⟩ := hmeeting
  refine ⟨functions, hrun, hlist, hhygienic.mpr fun operation hoperation => ?_⟩
  -- A shape that the operation refers to is one of the two imported ones.
  have hrefers : ∀ name, operation.RefersTo document.root name → name ∈ ["Cat", "Dog"] := by
    intro name hname
    rw [← hlist]
    exact (himports name).mpr ⟨operation, hoperation, hname⟩
  refine ⟨fun hname => ?_, fun name hglobal hname => ?_, fun _ role hrole => ?_⟩
  · rw [hclass] at hname
    exact absurd (hrefers _ hname) (by decide)
  · have hother : ∀ name ∈ ["Cat", "Dog"], name ∉ Client.globals := by decide
    exact hother name (hrefers name hname) hglobal
  · have hplace : (operation.path, operation.roles.map fun role => role.requestedName {}) ∈
        [("/\x7bid\x7d", ["id"])] := by
      rw [← hoperations]
      exact List.mem_map.mpr ⟨operation, hoperation, rfl⟩
    have hname : role.requestedName {} ∈ ["id"] := by
      rw [← (Prod.mk.inj (List.mem_singleton.mp hplace)).2]
      exact List.mem_map.mpr ⟨role, hrole, rfl⟩
    rw [List.mem_singleton.mp hname]
    decide

/-- **All three kinds of names may get into each other's way**, in one file: it imports a type that
is called like its class and one that is called like a global name, and a parameter is called like a
function that its method calls. -/
theorem exists_clash :
    ∃ document output,
      Document.readAs .yaml (eitherShape "String" "DefaultClient" "Error") = .ok document ∧
      generate document {} = .ok output ∧
      ∃ run : Run document {} output, ∃ client ∈ output.clients,
        ∃ functions, client.IsRun run.scope run.finished functions ∧
          client.className ∈ client.imports ∧
          (∃ name ∈ client.imports, name ∈ Client.globals) ∧
          ∃ function ∈ functions, ∃ parameter ∈ function.parameters,
            Client.Calls parameter.name function := by
  have hyields : yields .yaml (eitherShape "String" "DefaultClient" "Error") {} (fun _ output =>
      output.clients.map (meetingNames {}) =
        [("DefaultClient", ["DefaultClient", "Error"], [("/\x7bString\x7d", ["String"])])]) =
      true := by
    decide +kernel
  obtain ⟨document, output, hread, h, hcheck⟩ := exists_of_yields hyields
  have hnames := of_decide_eq_true hcheck
  obtain ⟨run⟩ := exists_run h
  have hmeeting := hnames ▸ List.mem_singleton_self _
  obtain ⟨client, hclient, heq⟩ := List.mem_map.mp hmeeting
  simp only [meetingNames, Prod.mk.injEq] at heq
  obtain ⟨hclass, hlist, hoperations⟩ := heq
  obtain ⟨functions, hrun⟩ := run.isRun_client client hclient
  have hplace := hoperations ▸ List.mem_singleton_self _
  obtain ⟨operation, hoperation, heq⟩ := List.mem_map.mp hplace
  obtain ⟨hpath, hroles⟩ := Prod.mk.inj heq
  have hname := hroles ▸ List.mem_singleton_self _
  obtain ⟨role, hrole, hname⟩ := List.mem_map.mp hname
  obtain ⟨function, hfunction, hassembles⟩ := exists_of_forall₂_left hrun.assembles hoperation
  refine ⟨document, output, hread, h, run, client, hclient, functions, hrun, ?_, ?_, function,
    hfunction, ?_⟩
  · rw [hclass, hlist]
    exact List.mem_cons_self
  · rw [hlist]
    exact ⟨"Error", by decide, by decide⟩
  · have hplaceholder : operation.HasPlaceholder := by
      refine ⟨"String", ?_⟩
      rw [hpath]
      decide +kernel
    by_contra hall
    simp only [not_exists, not_and] at hall
    refine hassembles.parameters_iff.mp hall hplaceholder role hrole ?_
    rw [run.settings_eq, hname]
    decide

end Output

end ApiScribe
