import ApiScribe.Files.Tree
import ApiScribe.Proofs.CaseMappings
import ApiScribe.Proofs.ClassMembers

/-!
# The names of files

Every client is written to a file that is named after its class, and the class after a tag, which may
be any text.  Two things could go wrong with such names.  A file could take the place of another one:
but class names are handed out (`claimed_of_ofOperations`), and one that is taken is not handed out
again.  Or a name could lead out of the directory it is written to: but a class name is one word
(`isWordChar_of_mem_className`), so the name of its file is a single component of a path.

`generate_files` states both, and `Path.parts_joinPath` is what they are good for: in any directory,
the path of a file is the path of the directory and the name.
-/

namespace ApiScribe

open Text TypeScript

/-! ## Components of paths -/

/-- The name can stand between the separators of a path, and leads to something in the directory. -/
structure IsPathComponent (name : String) : Prop where
  characters : ∀ c ∈ name.toList, c ≠ '/' ∧ c ≠ '\\' ∧ c ≠ '\x00'
  ne_empty : name ≠ ""
  ne_here : name ≠ "."
  ne_above : name ≠ ".."

/-- A word with the ending of a file is a component. -/
theorem isPathComponent_append_ts {name : String} (h : ∀ c ∈ name.toList, IsWordChar c) :
    IsPathComponent (name ++ ".ts") := by
  have hlast : ((name ++ ".ts").toList.getLast?) = some 's' := by
    rw [String.toList_append, List.getLast?_append]
    rfl
  refine ⟨fun c hc => ?_, ?_, ?_, ?_⟩
  · rw [String.toList_append] at hc
    rcases List.mem_append.mp hc with hc | hc
    · have hword := h c hc
      refine ⟨?_, ?_, ?_⟩ <;> rintro rfl <;> exact absurd hword (by decide)
    · have hend : ∀ c ∈ ".ts".toList, c ≠ '/' ∧ c ≠ '\\' ∧ c ≠ '\x00' :=
        List.forall_iff_forall_mem.mp (by decide)
      exact hend c hc
  all_goals
    intro heq
    rw [heq] at hlast
    revert hlast
    decide

/-- The words around a separator are those on either side of it. -/
theorem Text.words_append_cons (p : Char → Bool) (cs rest : List Char) {c : Char}
    (hc : p c = true) : words p (cs ++ c :: rest) = words p cs ++ words p rest := by
  rw [words, pieces_eq_splitOnP, List.splitOnP_append_cons cs rest hc, List.filter_append,
    ← pieces_eq_splitOnP, ← pieces_eq_splitOnP]
  rfl

/-- **In any directory, the path of a component is that of the directory and the component.** -/
theorem Path.parts_joinPath (directory : String) {name : String} (h : IsPathComponent name) :
    (Path.ofText (joinPath directory name)).parts = (Path.ofText directory).parts ++ [name] := by
  have hname : words (fun c => c = '/') name.toList = [name.toList] := by
    have hne : name.toList ≠ [] := fun hnil => h.ne_empty (String.toList_eq_nil_iff.mp hnil)
    rw [words, pieces_eq_splitOnP,
      List.splitOnP_eq_singleton fun c hc => decide_eq_false (h.characters c hc).1]
    simp [hne]
  have hparts : ∀ before : List Char, (words (fun c => c = '/') (before ++ '/' :: name.toList)).map
      String.ofList = (words (fun c => c = '/') before).map String.ofList ++ [name] := by
    intro before
    rw [words_append_cons _ _ _ (decide_eq_true rfl), hname, List.map_append, List.map_singleton,
      String.ofList_toList]
  rw [joinPath]
  split
  next hclosed =>
    -- the directory ends in a slash, behind which there is no further part
    obtain ⟨before, hbefore⟩ := List.getLast?_eq_some_iff.mp hclosed
    rw [ofText, String.toList_append, ofText, hbefore, List.append_assoc, List.singleton_append]
    dsimp only
    rw [hparts, words_append_cons _ _ _ (decide_eq_true rfl)]
    simp [words, pieces]
  next =>
    rw [ofText, String.toList_append, String.toList_append, ofText, List.append_assoc]
    exact hparts directory.toList

/-! ## Class names -/

/-- Numbers are words. -/
theorem Naming.isWordChar_of_mem_candidate {base : String} {number : Nat}
    (h : ∀ c ∈ base.toList, IsWordChar c) :
    ∀ c ∈ (candidate base number).toList, IsWordChar c := by
  intro c hc
  obtain ⟨digits, heq, hdigits, -⟩ := exists_toList_candidate base number
  rw [heq] at hc
  rcases List.mem_append.mp hc with hc | hc
  · exact h c hc
  · exact Or.inr (Or.inl (hdigits c hc))

namespace Client

/-- A tag asks for a word. -/
theorem isWordChar_of_mem_requestedName (settings : Settings) (tag : String) :
    ∀ c ∈ (requestedName settings tag).toList, IsWordChar c := by
  have htag : ∀ c ∈ Naming.pascalChars tag.toList, IsWordChar c :=
    fun _ => Naming.isWordChar_of_mem_pascalChars
  rw [requestedName, String.toList_append]
  refine List.forall_mem_append.mpr ⟨?_, ?_⟩
  · split
    next => exact List.forall_iff_forall_mem.mp (by decide)
    next =>
      split
      next =>
        rw [String.toList_append]
        refine List.forall_mem_append.mpr ⟨List.forall_iff_forall_mem.mp (by decide), ?_⟩
        rw [String.toList_ofList]
        exact htag
      next =>
        rw [String.toList_ofList]
        exact htag
  · cases settings.clientSuffix <;> exact List.forall_iff_forall_mem.mp (by decide)

variable {scope : Scope} {final before after : Progress} {client : Client}
  {functions : List Function}

/-- **A class name is one word**, whatever the tag is. -/
theorem IsRun.isWordChar_of_mem_className (h : client.IsRun scope final functions) :
    ∀ c ∈ client.className.toList, IsWordChar c := by
  obtain ⟨number, hname⟩ := h.className
  rw [hname]
  exact Naming.isWordChar_of_mem_candidate (isWordChar_of_mem_requestedName _ _)

theorem IsRun.isPathComponent (h : client.IsRun scope final functions) :
    IsPathComponent client.fileName :=
  isPathComponent_append_ts h.isWordChar_of_mem_className

theorem claimClientName_eq {requested name : String}
    (h : before.claimClientName requested = (name, after)) :
    name ∉ before.clientNames ∧ after.clientNames = before.clientNames ++ [name] := by
  rw [Progress.claimClientName] at h
  obtain ⟨rfl, rfl⟩ := Prod.mk.inj h
  refine ⟨Naming.fresh_notMem _ _, ?_⟩
  dsimp only
  split <;> rfl

end Client

/-- Keeping the class names as they are is stable. -/
theorem Progress.stable_clientNames :
    Session.Stable (fun before after : Progress => after.clientNames = before.clientNames) where
  refl _ := rfl
  trans h h' := h'.trans h
  report _ _ := rfl
  subject _ _ := rfl

namespace Client

variable {scope : Scope} {before after : Progress} {client : Client}

/-- The name of a class is new, and taken from then on. -/
theorem claimed_of_ofOperations {tag : String} {operations : List Operation}
    (h : ofOperations tag operations scope before = (.ok client, after)) :
    client.className ∉ before.clientNames ∧
      after.clientNames = before.clientNames ++ [client.className] := by
  simp only [ofOperations, Session.bind_eq_ok, Session.pure_eq_ok, Session.setSubject_eq_ok,
    Session.settings_eq_ok, Session.claimClientName_eq_ok] at h
  obtain ⟨_, _, rfl, _, _, ⟨rfl, rfl⟩, className, claimed, hclaimed, functions, _, hfunctions, rfl,
    rfl⟩ := h
  obtain ⟨hnew, htaken⟩ := claimClientName_eq hclaimed
  refine ⟨hnew, ?_⟩
  rw [(methods_keeps Progress.stable_clientNames _).of_eq_ok hfunctions, htaken]

end Client

/-! ## Files -/

namespace Output

variable {document : Document} {settings : Settings} {output : Output}

/-- No two classes have the same name, nor a name that was taken before. -/
theorem nodup_classNames {scope : Scope} {before after : Progress}
    {groups : Table (List Operation)} {clients : List Client}
    (h : clientsOf groups scope before = (.ok clients, after)) :
    (clients.map Client.className).Nodup ∧
      ∀ client ∈ clients, client.className ∉ before.clientNames := by
  induction groups generalizing clients before with
  | nil =>
    obtain ⟨rfl, -⟩ := Session.pure_eq_ok.mp h
    exact ⟨List.nodup_nil, fun _ hmem => absurd hmem List.not_mem_nil⟩
  | cons group groups ih =>
    simp only [clientsOf, Session.bind_eq_ok, Session.pure_eq_ok] at h
    obtain ⟨client, _, hclient, others, _, hothers, rfl, rfl⟩ := h
    obtain ⟨hnew, htaken⟩ := Client.claimed_of_ofOperations hclient
    obtain ⟨hnodup, hothers⟩ := ih hothers
    rw [htaken] at hothers
    constructor
    · refine List.nodup_cons.mpr ⟨fun hmem => ?_, hnodup⟩
      obtain ⟨other, hother, heq⟩ := List.mem_map.mp hmem
      exact hothers other hother (List.mem_append_right _ (List.mem_singleton.mpr heq))
    · refine List.forall_mem_cons.mpr ⟨hnew, fun other hother hmem => ?_⟩
      exact hothers other hother (List.mem_append_left _ hmem)

/-- Files with different names that are new come after the files that are there. -/
theorem foldl_put {files : Table String} {clients : List Client}
    (hnodup : (files.names ++ clients.map Client.fileName).Nodup) :
    clients.foldl (fun files client => files.put client.fileName client.source) files =
      files ++ clients.map fun client => (client.fileName, client.source) := by
  have hnames : Table.names (clients.map fun client => (client.fileName, client.source)) =
      clients.map Client.fileName := List.map_map
  rw [← hnames] at hnodup
  rw [← Table.foldl_put hnodup, List.foldl_map]

theorem Run.nodup_fileNames (run : Run document settings output) :
    (typesFile :: output.clients.map Client.fileName).Nodup := by
  refine List.nodup_cons.mpr ⟨fun hmem => ?_, ?_⟩
  · obtain ⟨client, hclient, heq⟩ := List.mem_map.mp hmem
    obtain ⟨functions, hrun⟩ := run.isRun_client client hclient
    exact hrun.fileName_ne heq
  · have hnodup := (nodup_classNames run.clients_eq).1
    have hinjective : Function.Injective fun name : String => name ++ ".ts" :=
      fun _ _ heq => (String.append_left_inj ".ts").mp heq
    have hnames := hnodup.map hinjective
    rw [List.map_map] at hnames
    exact hnames

/-- The file of declarations comes first, and then one file for each client, in their order. -/
theorem Run.files_eq_cons (run : Run document settings output) :
    output.files = (typesFile, { types := run.declarations : Module }.text) ::
      output.clients.map fun client => (client.fileName, client.source) := by
  rw [run.files_eq, filesOf]
  exact foldl_put run.nodup_fileNames

theorem Run.names_files (run : Run document settings output) :
    output.files.names = typesFile :: output.clients.map Client.fileName := by
  rw [run.files_eq_cons, Table.names, List.map_cons, List.map_map]
  rfl

/-- Every client has its source in the file of its name. -/
theorem Run.get?_fileName (run : Run document settings output) {client : Client}
    (hclient : client ∈ output.clients) :
    output.files.get? client.fileName = some client.source := by
  have hnodup := run.nodup_fileNames
  rw [← run.names_files] at hnodup
  rw [Table.get?_eq_some_iff hnodup, run.files_eq_cons]
  exact List.mem_cons_of_mem _ (List.mem_map_of_mem hclient)

/-- The name of every file is a component of a path. -/
theorem Run.isPathComponent_of_mem_names (run : Run document settings output) :
    ∀ name ∈ output.files.names, IsPathComponent name := by
  intro name hname
  rw [run.names_files] at hname
  rcases List.mem_cons.mp hname with rfl | hname
  · have htypes : ∀ c ∈ "types".toList, IsWordChar c :=
      List.forall_iff_forall_mem.mp (by decide)
    exact isPathComponent_append_ts htypes
  · obtain ⟨client, hclient, rfl⟩ := List.mem_map.mp hname
    obtain ⟨functions, hrun⟩ := run.isRun_client client hclient
    exact hrun.isPathComponent

/-- **The files of a generation.**  The file of declarations comes first, and then one file for each
client, in their order; no name is used twice.  Every name is a component of a path, so that in any
directory a file is at the place of its name. -/
theorem generate_files (h : generate document settings = .ok output) :
    ∃ run : Run document settings output,
      output.files = (typesFile, { types := run.declarations : Module }.text) ::
        output.clients.map (fun client => (client.fileName, client.source)) ∧
      output.files.names.Nodup ∧
      ∀ name ∈ output.files.names, IsPathComponent name ∧ ∀ directory,
        (Path.ofText (joinPath directory name)).parts =
          (Path.ofText directory).parts ++ [name] := by
  obtain ⟨run⟩ := exists_run h
  have hnodup := run.nodup_fileNames
  rw [← run.names_files] at hnodup
  refine ⟨run, run.files_eq_cons, hnodup, fun name hname => ?_⟩
  have hcomponent := run.isPathComponent_of_mem_names name hname
  exact ⟨hcomponent, fun directory => Path.parts_joinPath directory hcomponent⟩

/-- A document with tags that look like paths, two of which ask for one class name. -/
def tagsLikePaths : String :=
  String.intercalate "\n"
    ["openapi: 3.0.0",
      "paths:",
      " /users:",
      "  get:",
      "   tags: [../users, /users/, '..', types]",
      "   responses: \x7b\x7d"]

theorem generate_files_tagsLikePaths :
    ∃ document output, Document.readAs .yaml tagsLikePaths = .ok document ∧
      generate document {} = .ok output ∧
      output.files.names =
        ["types.ts", "UsersClient.ts", "UsersClient2.ts", "DefaultClient.ts", "TypesClient.ts"] ∧
      output.files.names.Nodup ∧ ∀ name ∈ output.files.names, IsPathComponent name := by
  have hyields : yields .yaml tagsLikePaths {} (fun _ output =>
      output.clients.map Client.fileName =
        ["UsersClient.ts", "UsersClient2.ts", "DefaultClient.ts", "TypesClient.ts"]) = true := by
    decide +kernel
  obtain ⟨document, output, hread, h, hclients⟩ := exists_of_yields hyields
  obtain ⟨run, hfiles, hnodup, hnames⟩ := generate_files h
  refine ⟨document, output, hread, h, ?_, hnodup, fun name hname => (hnames name hname).1⟩
  rw [hfiles, Table.names, List.map_cons, List.map_map]
  exact congrArg (List.cons typesFile) (of_decide_eq_true hclients)

end Output

end ApiScribe
