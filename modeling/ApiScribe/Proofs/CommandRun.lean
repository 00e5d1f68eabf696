import ApiScribe.CommandLine.Run
import ApiScribe.Proofs.FileTrees

/-!
# What a command does to the files

A command reads, generates and only then writes, so it has two parts.  Before anything is written it
is decided whether there is an output: either one of five things fails (`Inputs.Fails`), or the
inputs yield an output (`Inputs.Yields`).  A command that fails so says why, with an exit code of
one, and has touched nothing; nor does `check` when there is an output.

`generate` then writes.  Its directory is created, which adds directories only, and its files are
written one after the other; as writing does not change the directories, each of them can be written
if and only if the directory accepted its name in the first place (`on_writeFiles`).

`run_allOrNothing` is both parts together.
-/

namespace ApiScribe

namespace FileTree

/-- The files are read, each under its name in a directory. -/
def Holds (tree : FileTree) (directory : String) (files : Table String) : Prop :=
  ∀ file ∈ files, tree.read (Path.ofText (joinPath directory file.1)) = .ok file.2

/-- The directory can be created, and then a file can be written under each of the names. -/
def CanHold (tree : FileTree) (directory : String) (names : List String) : Prop :=
  ∃ grown home, tree.createChain (Path.ofText directory).chain = (.ok (), grown) ∧
    grown.target (Path.ofText directory) = .ok (.directory home) ∧
    ∀ name ∈ names, grown.Accepts home name

/-- Nothing is different in a tree but for the files at some places, and for directories where there
was nothing. -/
structure UntouchedBut (written : Place → Prop) (before after : FileTree) : Prop where
  workingDirectory : after.workingDirectory = before.workingDirectory
  content? : ∀ place, ¬ written place → after.content? place = before.content? place
  isDirectory : ∀ place, before.isDirectory place → after.isDirectory place
  created : ∀ place, after.isDirectory place →
    before.isDirectory place ∨ before.content? place = none

/-- The places of names in the directory that a path leads to. -/
def IsPlaceOf (tree : FileTree) (directory : String) (names : List String) (place : Place) : Prop :=
  ∃ home, tree.target (Path.ofText directory) = .ok (.directory home) ∧
    ∃ name ∈ names, place = home ++ [name]

/-- Directories that were added, and files that were written after that, leave the rest
untouched. -/
theorem Grows.untouchedBut {before grown after : FileTree} {written : Place → Prop}
    (h : before.Grows grown) (hworking : after.workingDirectory = grown.workingDirectory)
    (hdirectories : after.directories = grown.directories)
    (hcontent : ∀ place, ¬ written place → after.content? place = grown.content? place) :
    UntouchedBut written before after where
  workingDirectory := hworking.trans h.workingDirectory
  content? place hplace := by
    rw [hcontent place hplace, FileTree.content?, h.files, FileTree.content?]
  isDirectory place hplace := by
    rw [FileTree.isDirectory, hdirectories]
    exact h.isDirectory place hplace
  created place hplace := by
    rw [FileTree.isDirectory, hdirectories] at hplace
    exact h.content? place hplace

end FileTree

namespace CommandLine

open FileTree

theorem Outcome.code_failure (reason : String) : (Outcome.failure reason).code ≠ 0 :=
  Nat.one_ne_zero

/-! ## Computations on a tree -/

/-- How a computation that may fail ends on a tree, and the tree that it leaves. -/
def on {α : Type} (action : ExceptT String (StateM FileTree) α) (tree : FileTree) :
    Except String α × FileTree :=
  (action.run.run tree).run

section Computations

variable {α β : Type} {tree after : FileTree} {action : ExceptT String (StateM FileTree) α}
  {next : α → ExceptT String (StateM FileTree) β}

theorem on_bind_of_ok {value : α} (h : on action tree = (.ok value, after)) :
    on (action >>= next) tree = on (next value) after := by
  unfold on at h ⊢
  rw [ExceptT.run_bind, StateT.run_bind]
  simp [h]

theorem on_bind_of_error {reason : String} (h : on action tree = (.error reason, after)) :
    on (action >>= next) tree = (.error reason, after) := by
  unfold on at h ⊢
  rw [ExceptT.run_bind, StateT.run_bind]
  simp [h]

/-- An access does what it does, and the reason of a failure is explained. -/
theorem on_explained (explain : FileError → String) {access : StateM FileTree (Except FileError α)}
    {result : Except FileError α} (h : (access.run tree).run = (result, after)) :
    on (explained explain access) tree = (result.mapError explain, after) := by
  unfold on explained
  rw [ExceptT.run_bind, StateT.run_bind]
  cases result <;> simp [h, Except.mapError]

/-- Reading changes nothing. -/
theorem run_read (path : String) :
    ((FileAccess.read path : StateM FileTree (Except FileError String)).run tree).run =
      (tree.read (Path.ofText path), tree) := rfl

theorem on_read_of_ok (explain : FileError → String) {path text : String}
    (h : tree.read (Path.ofText path) = .ok text) :
    on (explained explain (FileAccess.read path)) tree = (.ok text, tree) := by
  rw [on_explained explain (run_read path), h]
  rfl

theorem on_read_of_error (explain : FileError → String) {path : String} {error : FileError}
    (h : tree.read (Path.ofText path) = .error error) :
    on (explained explain (FileAccess.read path)) tree = (.error (explain error), tree) := by
  rw [on_explained explain (run_read path), h]
  rfl

theorem run_createDirectories (path : String) :
    ((FileAccess.createDirectories path : StateM FileTree (Except FileError Unit)).run tree).run =
      tree.createChain (Path.ofText path).chain := rfl

theorem run_write_of_ok {path content : String}
    (h : tree.write (Path.ofText path) content = .ok after) :
    ((FileAccess.write path content : StateM FileTree (Except FileError Unit)).run tree).run =
      (.ok (), after) := by
  dsimp only [FileAccess.write, StateT.run, Id.run]
  rw [h]

/-- A file that cannot be written changes nothing. -/
theorem run_write_of_error {path content : String} {error : FileError}
    (h : tree.write (Path.ofText path) content = .error error) :
    ((FileAccess.write path content : StateM FileTree (Except FileError Unit)).run tree).run =
      (.error error, tree) := by
  dsimp only [FileAccess.write, StateT.run, Id.run]
  rw [h]

end Computations

/-! ## Before anything is written -/

namespace Inputs

variable {inputs : Inputs} {tree : FileTree}

/-- The settings in effect when the files are those of a tree. -/
inductive HasSettings (inputs : Inputs) (tree : FileTree) : Settings → Prop
  | default (h : inputs.configuration = none) :
      HasSettings inputs tree (inputs.choices.foldl Settings.choose {})
  | file {path text : String} {settings : Settings} (h : inputs.configuration = some path)
      (hread : tree.read (Path.ofText path) = .ok text)
      (hsettings : Settings.ofFile path text = .ok settings) :
      HasSettings inputs tree (inputs.choices.foldl Settings.choose settings)

/-- The files are those of a tree and yield an output. -/
inductive Yields (inputs : Inputs) (tree : FileTree) : Output → Prop
  | intro {settings : Settings} {text : String} {document : Document} {output : Output}
      (hsettings : inputs.HasSettings tree settings)
      (hread : tree.read (Path.ofText inputs.document) = .ok text)
      (hdocument : Document.read text = .ok document)
      (hgenerate : generate document settings = .ok output) :
      Yields inputs tree output

/-- What can go wrong before there is an output, each with the reason that is given for it. -/
inductive Fails (inputs : Inputs) (tree : FileTree) : String → Prop
  /-- The configuration file cannot be read. -/
  | unreadableConfiguration {path : String} {error : FileError}
      (h : inputs.configuration = some path)
      (hread : tree.read (Path.ofText path) = .error error) :
      Fails inputs tree (ConfigurationError.unreadable path error.message).message
  /-- The configuration is rejected. -/
  | rejectedConfiguration {path text : String} {error : ConfigurationError}
      (h : inputs.configuration = some path)
      (hread : tree.read (Path.ofText path) = .ok text)
      (hsettings : Settings.ofFile path text = .error error) :
      Fails inputs tree error.message
  /-- The document cannot be read. -/
  | unreadableDocument {settings : Settings} {error : FileError}
      (hsettings : inputs.HasSettings tree settings)
      (hread : tree.read (Path.ofText inputs.document) = .error error) :
      Fails inputs tree ("Failed to read " ++ inputs.document ++ ": " ++ error.message)
  /-- The document does not load. -/
  | rejectedDocument {settings : Settings} {text : String} {error : LoadError}
      (hsettings : inputs.HasSettings tree settings)
      (hread : tree.read (Path.ofText inputs.document) = .ok text)
      (hdocument : Document.read text = .error error) :
      Fails inputs tree (inputs.document ++ ": " ++ error.message)
  /-- The generation fails. -/
  | rejectedByGeneration {settings : Settings} {text : String} {document : Document}
      {error : CompileError} (hsettings : inputs.HasSettings tree settings)
      (hread : tree.read (Path.ofText inputs.document) = .ok text)
      (hdocument : Document.read text = .ok document)
      (hgenerate : generate document settings = .error error) :
      Fails inputs tree (inputs.document ++ ": " ++ error.message)

/-- There are settings, or the configuration is to blame. -/
theorem hasSettings_or_fails (inputs : Inputs) (tree : FileTree) :
    (∃ settings, inputs.HasSettings tree settings) ∨ ∃ reason, inputs.Fails tree reason := by
  cases hconfiguration : inputs.configuration with
  | none => exact Or.inl ⟨_, .default hconfiguration⟩
  | some path =>
    cases hread : tree.read (Path.ofText path) with
    | error error => exact Or.inr ⟨_, .unreadableConfiguration hconfiguration hread⟩
    | ok text =>
      cases hsettings : Settings.ofFile path text with
      | error error => exact Or.inr ⟨_, .rejectedConfiguration hconfiguration hread hsettings⟩
      | ok settings => exact Or.inl ⟨_, .file hconfiguration hread hsettings⟩

/-- **Nothing but the five failures stands between the inputs and an output.** -/
theorem fails_or_yields (inputs : Inputs) (tree : FileTree) :
    (∃ reason, inputs.Fails tree reason) ∨ ∃ output, inputs.Yields tree output := by
  obtain ⟨settings, hsettings⟩ | hfails := inputs.hasSettings_or_fails tree
  · cases hread : tree.read (Path.ofText inputs.document) with
    | error error => exact Or.inl ⟨_, .unreadableDocument hsettings hread⟩
    | ok text =>
      cases hdocument : Document.read text with
      | error error => exact Or.inl ⟨_, .rejectedDocument hsettings hread hdocument⟩
      | ok document =>
        cases hgenerate : generate document settings with
        | error error =>
          exact Or.inl ⟨_, .rejectedByGeneration hsettings hread hdocument hgenerate⟩
        | ok output => exact Or.inr ⟨_, .intro hsettings hread hdocument hgenerate⟩
  · exact Or.inl hfails

theorem on_settings {settings : Settings} (h : inputs.HasSettings tree settings) :
    on inputs.settings tree = (.ok settings, tree) := by
  unfold Inputs.settings
  cases h with
  | default h =>
    rw [h]
    rfl
  | file h hread hsettings =>
    rw [h]
    dsimp only
    rw [on_bind_of_ok (on_read_of_ok _ hread), hsettings]
    rfl

theorem on_readDocument {text : String} {document : Document}
    (hread : tree.read (Path.ofText inputs.document) = .ok text)
    (hdocument : Document.read text = .ok document) :
    on inputs.readDocument tree = (.ok document, tree) := by
  unfold Inputs.readDocument
  rw [on_bind_of_ok (on_read_of_ok _ hread), hdocument]
  rfl

/-- What the inputs yield is found, and nothing is changed. -/
theorem on_generated_of_yields {output : Output} (h : inputs.Yields tree output) :
    on inputs.generated tree = (.ok output, tree) := by
  obtain ⟨hsettings, hread, hdocument, hgenerate⟩ := h
  unfold Inputs.generated
  rw [on_bind_of_ok (on_settings hsettings), on_bind_of_ok (on_readDocument hread hdocument),
    hgenerate]
  rfl

/-- A failure gives its reason, and nothing is changed. -/
theorem on_generated_of_fails {reason : String} (h : inputs.Fails tree reason) :
    on inputs.generated tree = (.error reason, tree) := by
  unfold Inputs.generated
  cases h with
  | unreadableConfiguration h hread =>
    refine on_bind_of_error ?_
    unfold Inputs.settings
    rw [h]
    exact on_bind_of_error (on_read_of_error _ hread)
  | rejectedConfiguration h hread hsettings =>
    refine on_bind_of_error ?_
    unfold Inputs.settings
    rw [h]
    dsimp only
    rw [on_bind_of_ok (on_read_of_ok _ hread), hsettings]
    rfl
  | unreadableDocument hsettings hread =>
    rw [on_bind_of_ok (on_settings hsettings)]
    exact on_bind_of_error (on_bind_of_error (on_read_of_error _ hread))
  | rejectedDocument hsettings hread hdocument =>
    rw [on_bind_of_ok (on_settings hsettings)]
    refine on_bind_of_error ?_
    unfold Inputs.readDocument
    rw [on_bind_of_ok (on_read_of_ok _ hread), hdocument]
    rfl
  | rejectedByGeneration hsettings hread hdocument hgenerate =>
    rw [on_bind_of_ok (on_settings hsettings), on_bind_of_ok (on_readDocument hread hdocument),
      hgenerate]
    rfl

/-- The files of an output have different names, which are components of paths. -/
theorem Yields.names {output : Output} (h : inputs.Yields tree output) :
    output.files.names.Nodup ∧ ∀ name ∈ output.files.names, IsPathComponent name := by
  obtain ⟨-, -, -, hgenerate⟩ := h
  obtain ⟨run⟩ := Output.exists_run hgenerate
  refine ⟨?_, run.isPathComponent_of_mem_names⟩
  rw [run.names_files]
  exact run.nodup_fileNames

end Inputs

/-! ## Writing -/

section Writing

variable {tree : FileTree} {directory : String} {home : Place}

/-- **Files are written to a directory one after the other.**  Only places in the directory get
another content; all files can be written if the directory accepts all names; and different names
then have their own files. -/
theorem on_writeFiles (htarget : tree.target (Path.ofText directory) = .ok (.directory home))
    {files : Table String} (hnames : ∀ name ∈ files.names, IsPathComponent name) :
    ∃ result after, on (writeFiles directory files) tree = (result, after) ∧
      (after.workingDirectory = tree.workingDirectory ∧ after.directories = tree.directories) ∧
      (∀ place, (∀ name ∈ files.names, place ≠ home ++ [name]) →
        after.content? place = tree.content? place) ∧
      (result = .ok () ↔ ∀ name ∈ files.names, tree.Accepts home name) ∧
      (result = .ok () → files.names.Nodup →
        ∀ file ∈ files, after.content? (home ++ [file.1]) = some file.2) := by
  induction files generalizing tree with
  | nil => exact ⟨.ok (), tree, rfl, ⟨rfl, rfl⟩, fun _ _ => rfl, by simp [Table.names], by simp⟩
  | cons file rest ih =>
    obtain ⟨name, content⟩ := file
    obtain ⟨hname, hnames⟩ := List.forall_mem_cons.mp hnames
    unfold writeFiles
    rcases write_joinPath htarget hname content with
      ⟨haccepts, hwrite⟩ | ⟨hrefuses, error, hwrite⟩
    · -- the other files are written to the tree that has the first one
      obtain ⟨result, after, hon, hdirectories, hothers, hok, hcontent⟩ :=
        ih (target_put htarget) hnames
      refine ⟨result, after, ?_, hdirectories, fun place hplace => ?_, ?_, fun hresult hnodup => ?_⟩
      · rw [← hon]
        exact on_bind_of_ok (on_explained _ (run_write_of_ok hwrite))
      · obtain ⟨hfirst, hrest⟩ := List.forall_mem_cons.mp hplace
        rw [hothers place hrest, content?_put, if_neg hfirst]
      · rw [hok]
        exact (and_iff_right haccepts).symm.trans List.forall_mem_cons.symm
      · obtain ⟨hnew, hnodup⟩ := List.nodup_cons.mp hnodup
        refine List.forall_mem_cons.mpr ⟨?_, hcontent hresult hnodup⟩
        have hkept : ∀ other ∈ Table.names rest, home ++ [name] ≠ home ++ [other] := by
          rintro other hother heq
          obtain rfl := List.singleton_inj.mp (List.append_cancel_left heq)
          exact hnew hother
        rw [hothers _ hkept, content?_put, if_pos rfl]
    · refine ⟨_, tree, on_bind_of_error (on_explained _ (run_write_of_error hwrite)), ⟨rfl, rfl⟩,
        fun _ _ => rfl, iff_of_false (fun hok => ?_) fun haccepts => ?_, fun hok => ?_⟩
      · cases hok
      · exact absurd (haccepts name (List.mem_cons_self ..)) hrefuses
      · cases hok

end Writing

namespace Command

/-- What a command works on. -/
def inputs : Command → Inputs
  | .generate inputs _ => inputs
  | .check inputs _ => inputs

/-- The outcome of a command on a tree, and the tree that it leaves. -/
def runOn (command : Command) (tree : FileTree) : Outcome × FileTree :=
  ((command.run : StateM FileTree Outcome).run tree).run

variable {tree after : FileTree}

theorem runOn_of_ok {command : Command} {line : String} {diagnostics : List Diagnostic}
    (h : on command.line tree = (.ok (line, diagnostics), after)) :
    command.runOn tree = (.success line diagnostics, after) := by
  unfold runOn run
  unfold on at h
  rw [StateT.run_bind]
  simp [h]

theorem runOn_of_error {command : Command} {reason : String}
    (h : on command.line tree = (.error reason, after)) :
    command.runOn tree = (.failure reason, after) := by
  unfold runOn run
  unfold on at h
  rw [StateT.run_bind]
  simp [h]

/-- A command whose inputs fail has touched nothing. -/
theorem runOn_of_fails {command : Command} {reason : String}
    (h : command.inputs.Fails tree reason) : command.runOn tree = (.failure reason, tree) := by
  refine runOn_of_error ?_
  cases command <;> exact on_bind_of_error (Inputs.on_generated_of_fails h)

variable {inputs : Inputs} {output : Output}

theorem runOn_check (h : inputs.Yields tree output) (denyWarnings : Bool) :
    (check inputs denyWarnings).runOn tree =
      (if denyWarnings = true ∧ output.diagnostics ≠ [] then
        .failure (deniedReason inputs.document output)
      else .success (checkedLine inputs.document output) output.diagnostics, tree) := by
  have hline : on (check inputs denyWarnings).line tree = on
      (if denyWarnings && !output.diagnostics.isEmpty then
        throw (deniedReason inputs.document output)
      else pure (checkedLine inputs.document output, output.diagnostics)) tree :=
    on_bind_of_ok (Inputs.on_generated_of_yields h)
  by_cases hdenied : denyWarnings = true ∧ output.diagnostics ≠ []
  · rw [if_pos hdenied]
    refine runOn_of_error (hline.trans ?_)
    rw [if_pos (by simpa using hdenied)]
    rfl
  · rw [if_neg hdenied]
    refine runOn_of_ok (hline.trans ?_)
    rw [if_neg (by simpa using hdenied)]
    rfl

/-- **`generate` creates its directory and writes the files.**  It succeeds exactly if the directory
can hold them, and then they are there. -/
theorem runOn_generate (h : inputs.Yields tree output) (directory : String) :
    ∃ outcome after, (generate inputs directory).runOn tree = (outcome, after) ∧
      (outcome.code = 0 ↔ tree.CanHold directory output.files.names) ∧
      (outcome.code = 0 → after.Holds directory output.files) ∧
      UntouchedBut (after.IsPlaceOf directory output.files.names) tree after := by
  obtain ⟨hnodup, hnames⟩ := h.names
  obtain ⟨hgrows, -⟩ := createChain_grows tree (Path.ofText directory).chain
  rcases hchain : tree.createChain (Path.ofText directory).chain with ⟨error | ⟨⟩, grown⟩
  · -- the directory cannot be created
    rw [hchain] at hgrows
    refine ⟨_, grown, runOn_of_error ((on_bind_of_ok (Inputs.on_generated_of_yields h)).trans
      (on_bind_of_error (on_explained _ ((run_createDirectories directory).trans hchain)))),
      iff_of_false (Outcome.code_failure _) ?_, fun hcode => absurd hcode (Outcome.code_failure _),
      hgrows.untouchedBut rfl rfl fun _ _ => rfl⟩
    rintro ⟨_, _, hcreated, -⟩
    rw [hchain] at hcreated
    cases hcreated
  · rw [hchain] at hgrows
    obtain ⟨home, htarget⟩ := exists_target_of_createChain hchain
    obtain ⟨result, after, hon, ⟨hworking, hdirectories⟩, hothers, hok, hcontent⟩ :=
      on_writeFiles htarget hnames
    have hline : on (generate inputs directory).line tree =
        on (writeFiles directory output.files >>= fun _ =>
          pure (generatedLine directory output, output.diagnostics)) grown :=
      (on_bind_of_ok (Inputs.on_generated_of_yields h)).trans
        (on_bind_of_ok (on_explained _ ((run_createDirectories directory).trans hchain)))
    -- writing does not change where the path of the directory leads
    have hdirectory : ∀ place, grown.isDirectory place → after.isDirectory place := by
      intro place hplace
      rwa [FileTree.isDirectory, hdirectories]
    have hkept := target_eq_directory hdirectory hworking htarget
    have haccepts : tree.CanHold directory output.files.names ↔
        ∀ name ∈ output.files.names, grown.Accepts home name := by
      constructor
      · rintro ⟨_, other, hcreated, hother, hall⟩
        rw [hchain] at hcreated
        cases hcreated
        rw [htarget] at hother
        cases hother
        exact hall
      · exact fun hall => ⟨grown, home, hchain, htarget, hall⟩
    have huntouched : UntouchedBut (after.IsPlaceOf directory output.files.names) tree after := by
      refine hgrows.untouchedBut hworking hdirectories fun place hplace => hothers place ?_
      exact fun name hname heq => hplace ⟨home, hkept, name, hname, heq⟩
    rw [haccepts, ← hok]
    cases result with
    | error reason =>
      refine ⟨_, after, runOn_of_error (hline.trans (on_bind_of_error hon)),
        iff_of_false (Outcome.code_failure _) fun hresult => ?_,
        fun hcode => absurd hcode (Outcome.code_failure _), huntouched⟩
      cases hresult
    | ok value =>
      refine ⟨_, after, runOn_of_ok (hline.trans (on_bind_of_ok hon)), ⟨fun _ => rfl, fun _ => rfl⟩,
        fun _ file hfile => ?_, huntouched⟩
      have hname : file.1 ∈ output.files.names := List.mem_map_of_mem hfile
      obtain ⟨hsize, hfree⟩ := hok.mp rfl file.1 hname
      refine read_joinPath hkept (hnames file.1 hname) ⟨hsize, ?_⟩ (hcontent rfl hnodup file hfile)
      rwa [FileTree.isDirectory, hdirectories]

/-- **Commands are all or nothing before they write.**  Nothing but five failures stands between the
inputs and an output.  If one of them happens, the command fails and has touched nothing.  With an
output, `check` touches nothing either, and fails exactly if diagnostics are denied and there are
some; `generate` succeeds exactly if its directory can hold the files, and then they are there,
under their names and with their texts.  Whether it succeeds or not, all other files are
untouched. -/
theorem runOn_allOrNothing (command : Command) (tree : FileTree) :
    ((∃ reason, command.inputs.Fails tree reason) ∨ ∃ output, command.inputs.Yields tree output) ∧
      (∀ reason, command.inputs.Fails tree reason →
        command.runOn tree = (.failure reason, tree) ∧ (command.runOn tree).1.code = 1) ∧
      ∀ output, command.inputs.Yields tree output → ∃ outcome after,
        command.runOn tree = (outcome, after) ∧
        match command with
        | .check _ denyWarnings =>
          after = tree ∧ (outcome.code = 1 ↔ denyWarnings = true ∧ output.diagnostics ≠ [])
        | .generate _ directory =>
          (outcome.code = 0 ↔ tree.CanHold directory output.files.names) ∧
            (outcome.code = 0 → after.Holds directory output.files) ∧
            UntouchedBut (after.IsPlaceOf directory output.files.names) tree after := by
  refine ⟨command.inputs.fails_or_yields tree, fun reason h => ?_, fun output h => ?_⟩
  · rw [runOn_of_fails h]
    exact ⟨rfl, rfl⟩
  · cases command with
    | check inputs denyWarnings =>
      refine ⟨_, tree, runOn_check h denyWarnings, rfl, ?_⟩
      split
      next hdenied => exact ⟨fun _ => hdenied, fun _ => rfl⟩
      next hallowed => exact ⟨nofun, fun hdenied => absurd hdenied hallowed⟩
    | generate inputs directory => exact runOn_generate h directory

/-- A document with one operation. -/
def listPets : String :=
  String.intercalate "\n"
    ["openapi: 3.0.0",
      "paths:",
      " /pets:",
      "  get:",
      "   tags: [pets]",
      "   responses: \x7b\x7d"]

/-- A working directory with that document and another file. -/
def petsTree : FileTree where
  workingDirectory := ["work"]
  directories := [["work"]]
  files := [(["work", "pets.yaml"], listPets), (["work", "notes"], "")]

theorem runOn_allOrNothing_pets :
    ∃ command output,
      Request.ofArguments ["generate", "-i", "pets.yaml", "--output=out/client"] =
        .run false command ∧
      command.inputs.Yields petsTree output ∧
      output.files.names = ["types.ts", "PetsClient.ts"] ∧
      (command.runOn petsTree).1.code = 0 ∧
      (command.runOn petsTree).2.Holds "out/client" output.files ∧
      (command.runOn petsTree).2.content? ["work", "notes"] = some "" := by
  have hyields : Output.yields .yaml listPets {} (fun _ output =>
      output.clients.map Client.fileName = ["PetsClient.ts"]) = true := by
    decide +kernel
  obtain ⟨document, output, hread, h, hclients⟩ := Output.exists_of_yields hyields
  obtain ⟨run⟩ := Output.exists_run h
  have hnames : output.files.names = ["types.ts", "PetsClient.ts"] := by
    rw [run.names_files]
    exact congrArg (List.cons Output.typesFile) (of_decide_eq_true hclients)
  have hguess : Notation.guess listPets = .yaml := by decide +kernel
  have hfile : petsTree.read (Path.ofText "pets.yaml") = .ok listPets := by decide +kernel
  have hresult : Inputs.Yields { document := "pets.yaml" } petsTree output :=
    .intro (.default rfl) hfile (by rw [Document.read, hguess]; exact hread) h
  have hhold : petsTree.CanHold "out/client" output.files.names := by
    refine ⟨{ petsTree with directories := [["work"], ["work", "out"], ["work", "out", "client"]] },
      ["work", "out", "client"], by decide +kernel, by decide +kernel, ?_⟩
    rw [hnames]
    exact List.forall_iff_forall_mem.mp
      ⟨⟨by decide, by decide⟩, ⟨by decide, by decide⟩⟩
  obtain ⟨-, -, hwrites⟩ :=
    runOn_allOrNothing (generate { document := "pets.yaml" } "out/client") petsTree
  obtain ⟨outcome, after, hrun, hok, hholds, huntouched⟩ := hwrites output hresult
  refine ⟨generate { document := "pets.yaml" } "out/client", output, by decide +kernel, hresult,
    hnames, ?_⟩
  rw [hrun]
  refine ⟨hok.mpr hhold, hholds (hok.mpr hhold), ?_⟩
  rw [huntouched.content?]
  · rfl
  · rintro ⟨home, -, name, hname, heq⟩
    obtain rfl : "notes" = name := by simpa using congrArg List.getLast? heq
    rw [hnames] at hname
    exact absurd hname (by decide)

end Command

end CommandLine

end ApiScribe
