import ApiScribe.Proofs.FileNames

/-!
# Changes to file trees

What the operations on a file tree do to it.  Directories are only ever added, and only where there
was nothing (`FileTree.Grows`); a written file is at its place and every other place has the content
it had (`lookup_putFile`).  So a path that leads to a directory does so for good (`Grows.target`),
whatever is created or written after it.

Two operations are followed to their end.  A chain of directories that could be created leaves its
path leading to a directory (`exists_target_of_createChain`).  And a file can be written under a
name in such a directory exactly if the directory `Accepts` the name: the name is not too long,
and no directory stands in its place (`write_joinPath`).
-/

namespace ApiScribe

/-- The path of a component in a directory is a path from where that of the directory is one, and
is open at its end. -/
theorem Path.ofText_joinPath {directory name : String} (hdirectory : directory ≠ "")
    (h : IsPathComponent name) :
    (Path.ofText (joinPath directory name)).absolute = (Path.ofText directory).absolute ∧
      (Path.ofText (joinPath directory name)).closed = false := by
  have hne : directory.toList ≠ [] := fun hnil => hdirectory (String.toList_eq_nil_iff.mp hnil)
  have hname : name.toList ≠ [] := fun hnil => h.ne_empty (String.toList_eq_nil_iff.mp hnil)
  have hlast : name.toList.getLast? ≠ some '/' := fun hslash =>
    (h.characters '/' (List.mem_of_getLast? hslash)).1 rfl
  have hopen : ∀ before : List Char, (before ++ name.toList).getLast? ≠ some '/' := by
    intro before
    rwa [List.getLast?_append_of_ne_nil before hname]
  rw [joinPath]
  split
  · rw [ofText, ofText, String.toList_append]
    exact ⟨by rw [List.head?_append_of_ne_nil _ hne], decide_eq_false (hopen _)⟩
  · rw [ofText, ofText, String.toList_append, String.toList_append, List.append_assoc]
    refine ⟨by rw [List.head?_append_of_ne_nil _ hne], decide_eq_false ?_⟩
    rw [← List.append_assoc]
    exact hopen _

namespace FileTree

variable {tree grown : FileTree} {here there place : Place} {path : Path}

/-! ## Walking -/

/-- A single name leads to what it stands for. -/
@[simp] theorem walk_singleton {part : String} : tree.walk here [part] = tree.step here part := by
  rw [walk]
  rcases tree.step here part with _ | (_ | _ | _) <;> rfl

/-- A walk goes on from the directory it has come to. -/
theorem walk_append {front back : List String} (h : tree.walk here front = .ok (.directory there)) :
    tree.walk here (front ++ back) = tree.walk there back := by
  induction front generalizing here with
  | nil =>
    cases h
    rfl
  | cons part rest ih =>
    rw [walk] at h
    rw [List.cons_append, walk]
    split at h
    next => cases h
    next hstep => simpa only [hstep] using ih h
    next => split at h <;> cases h
    next => split at h <;> cases h

/-- What there is at a place. -/
def find (tree : FileTree) (place : Place) : Target :=
  if tree.isDirectory place then .directory place
  else match tree.content? place with
    | some content => .file place content
    | none => .nothing place

theorem find_eq_directory_iff :
    tree.find place = .directory there ↔ place = there ∧ tree.isDirectory place = true := by
  rw [find]
  split
  next h => simp [h]
  next h => split <;> simp [h]

theorem find_eq_nothing_iff :
    tree.find place = .nothing there ↔
      place = there ∧ tree.isDirectory place = false ∧ tree.content? place = none := by
  rw [find]
  split
  next h => simp [h]
  next h => split <;> simp_all

/-- An ordinary part of a path leads to what there is at its place. -/
theorem step_of_ne {part : String} (hhere : part ≠ ".") (habove : part ≠ "..") :
    tree.step here part =
      if nameLimit < part.utf8ByteSize then .error .nameTooLong
      else .ok (tree.find (here ++ [part])) := by
  rw [step, if_neg hhere, if_neg habove]
  refine if_congr Iff.rfl rfl ?_
  rw [find]
  dsimp only
  split
  · rfl
  · cases tree.content? (here ++ [part]) <;> rfl

/-- A path that leads to a directory is not empty. -/
theorem ne_empty_of_target {directory : String} {target : Target}
    (h : tree.target (Path.ofText directory) = .ok target) : directory ≠ "" := by
  rintro rfl
  cases h

/-- The path of a component leads to what the component stands for in the directory. -/
theorem target_joinPath {directory name : String}
    (h : tree.target (Path.ofText directory) = .ok (.directory place))
    (hname : IsPathComponent name) :
    tree.target (Path.ofText (joinPath directory name)) = tree.step place name := by
  obtain ⟨habsolute, -⟩ := Path.ofText_joinPath (ne_empty_of_target h) hname
  rw [target] at h ⊢
  rw [habsolute, Path.parts_joinPath directory hname]
  split at h
  next => cases h
  next => rw [if_neg (by simp), walk_append h, walk_singleton]

/-! ## Growth -/

/-- Some directories were added to a tree, at places that had no content. -/
structure Grows (tree grown : FileTree) : Prop where
  workingDirectory : grown.workingDirectory = tree.workingDirectory
  files : grown.files = tree.files
  isDirectory : ∀ place, tree.isDirectory place → grown.isDirectory place
  content? : ∀ place, grown.isDirectory place → tree.isDirectory place ∨ tree.content? place = none

@[refl] theorem Grows.refl (tree : FileTree) : tree.Grows tree :=
  ⟨rfl, rfl, fun _ => id, fun _ => Or.inl⟩

theorem Grows.trans {last : FileTree} (h : tree.Grows grown) (h' : grown.Grows last) :
    tree.Grows last where
  workingDirectory := h'.workingDirectory.trans h.workingDirectory
  files := h'.files.trans h.files
  isDirectory place hplace := h'.isDirectory place (h.isDirectory place hplace)
  content? place hplace := by
    rcases h'.content? place hplace with hplace | hnone
    · exact h.content? place hplace
    · rw [FileTree.content?, h.files] at hnone
      exact Or.inr hnone

/-- A part that leads to a directory still does when directories were added. -/
theorem step_eq_directory (hdirectories : ∀ place, tree.isDirectory place → grown.isDirectory place)
    {part : String} (h : tree.step here part = .ok (.directory there)) :
    grown.step here part = .ok (.directory there) := by
  by_cases hhere : part = "."
  · rw [step, if_pos hhere] at h ⊢
    exact h
  by_cases habove : part = ".."
  · rw [step, if_neg hhere, if_pos habove] at h ⊢
    exact h
  rw [step_of_ne hhere habove] at h ⊢
  split at h
  next => cases h
  next hsize =>
    obtain ⟨rfl, hplace⟩ := find_eq_directory_iff.mp (Except.ok.inj h)
    rw [if_neg hsize, find_eq_directory_iff.mpr ⟨rfl, hdirectories _ hplace⟩]

theorem walk_eq_directory (hdirectories : ∀ place, tree.isDirectory place → grown.isDirectory place)
    {parts : List String} (h : tree.walk here parts = .ok (.directory there)) :
    grown.walk here parts = .ok (.directory there) := by
  induction parts generalizing here with
  | nil => exact h
  | cons part rest ih =>
    rw [walk] at h ⊢
    split at h
    next => cases h
    next hstep => simpa only [step_eq_directory hdirectories hstep] using ih h
    next => split at h <;> cases h
    next => split at h <;> cases h

/-- A path that leads to a directory still does when directories were added. -/
theorem target_eq_directory
    (hdirectories : ∀ place, tree.isDirectory place → grown.isDirectory place)
    (hworking : grown.workingDirectory = tree.workingDirectory)
    (h : tree.target path = .ok (.directory place)) :
    grown.target path = .ok (.directory place) := by
  rw [target] at h ⊢
  split at h
  next => cases h
  next hparts =>
    rw [if_neg hparts, hworking]
    exact walk_eq_directory hdirectories h

theorem Grows.target (hgrows : tree.Grows grown) (h : tree.target path = .ok (.directory place)) :
    grown.target path = .ok (.directory place) :=
  target_eq_directory hgrows.isDirectory hgrows.workingDirectory h

/-! ## Creating directories -/

/-- A part that leads to nothing leads to a place without content, which a new directory can
take. -/
theorem step_eq_nothing {part : String} (h : tree.step here part = .ok (.nothing place)) :
    tree.content? place = none ∧
      { tree with directories := tree.directories ++ [place] }.step here part =
        .ok (.directory place) := by
  have hhere : part ≠ "." := by
    rintro rfl
    cases h
  have habove : part ≠ ".." := by
    rintro rfl
    cases h
  rw [step_of_ne hhere habove] at h ⊢
  split at h
  next => cases h
  next hsize =>
    obtain ⟨rfl, -, hnone⟩ := find_eq_nothing_iff.mp (Except.ok.inj h)
    refine ⟨hnone, ?_⟩
    rw [if_neg hsize, find_eq_directory_iff.mpr ⟨rfl, by simp [FileTree.isDirectory]⟩]

theorem isDirectory_of_append (h : tree.isDirectory there = true) :
    { tree with directories := tree.directories ++ [place] }.isDirectory there = true := by
  simp only [FileTree.isDirectory, Bool.or_eq_true, List.contains_eq_mem, decide_eq_true_eq,
    List.mem_append] at h ⊢
  exact h.imp_right Or.inl

theorem walk_eq_nothing {parts : List String} (h : tree.walk here parts = .ok (.nothing place)) :
    tree.content? place = none ∧
      { tree with directories := tree.directories ++ [place] }.walk here parts =
        .ok (.directory place) := by
  induction parts generalizing here with
  | nil => cases h
  | cons part rest ih =>
    rw [walk] at h ⊢
    split at h
    next => cases h
    next there hstep =>
      rw [step_eq_directory (fun _ => isDirectory_of_append) hstep]
      exact ih h
    next => split at h <;> cases h
    next hstep =>
      split at h
      next hrest =>
        cases h
        obtain ⟨hnone, hstep⟩ := step_eq_nothing hstep
        rw [List.isEmpty_iff.mp hrest, hstep]
        exact ⟨hnone, rfl⟩
      next => cases h

/-- Creating a directory adds it to the tree, and its path leads to it from then on. -/
theorem createDirectory_eq_ok (h : tree.createDirectory path = .ok grown) :
    tree.Grows grown ∧ ∃ place, grown.target path = .ok (.directory place) := by
  rw [createDirectory] at h
  split at h
  next => cases h
  next => cases h
  next => cases h
  next place htarget =>
    cases h
    rw [target] at htarget
    split at htarget
    next => cases htarget
    next hparts =>
      obtain ⟨hnone, hwalk⟩ := walk_eq_nothing htarget
      refine ⟨⟨rfl, rfl, fun _ => isDirectory_of_append, fun other hother => ?_⟩, place, ?_⟩
      · simp only [FileTree.isDirectory, Bool.or_eq_true, List.contains_eq_mem, decide_eq_true_eq,
          List.mem_append, List.mem_singleton] at hother ⊢
        rcases hother with hother | hother | rfl
        · exact Or.inl (Or.inl hother)
        · exact Or.inl (Or.inr hother)
        · exact Or.inr hnone
      · rw [target, if_neg hparts]
        exact hwalk

theorem leadsToDirectory_iff :
    tree.leadsToDirectory path = true ↔ ∃ place, tree.target path = .ok (.directory place) := by
  rw [leadsToDirectory]
  split
  next place htarget => simp [htarget]
  next hother => simpa using hother

/-- **A chain of directories only adds directories**, and if it could be created, its path leads to
a directory. -/
theorem createChain_grows (tree : FileTree) (paths : List Path) :
    tree.Grows (tree.createChain paths).2 ∧
      ((tree.createChain paths).1 = .ok () →
        ∀ path ∈ paths.head?, ∃ place, (tree.createChain paths).2.target path =
          .ok (.directory place)) := by
  -- what an attempt that gave an error is worth depends on what is there afterwards
  have htried : ∀ (tree : FileTree) (path : Path) (error : FileError),
      (if tree.leadsToDirectory path then Except.ok () else .error error) = .ok () →
        ∃ place, tree.target path = .ok (.directory place) := by
    intro tree path error hok
    split at hok
    next hleads => exact leadsToDirectory_iff.mp hleads
    next => cases hok
  induction paths generalizing tree with
  | nil => exact ⟨Grows.refl tree, fun _ _ hmem => by cases hmem⟩
  | cons path parents ih =>
    simp only [List.head?_cons, Option.mem_some_iff, forall_eq']
    rw [createChain]
    split
    next created hcreated =>
      obtain ⟨hgrows, htarget⟩ := createDirectory_eq_ok hcreated
      exact ⟨hgrows, fun _ => htarget⟩
    next =>
      obtain ⟨hgrows, -⟩ := ih tree
      split
      next error between hparents =>
        rw [hparents] at hgrows
        exact ⟨hgrows, fun hok => by cases hok⟩
      next between hparents =>
        rw [hparents] at hgrows
        split
        next created hcreated =>
          obtain ⟨hlast, htarget⟩ := createDirectory_eq_ok hcreated
          exact ⟨hgrows.trans hlast, fun _ => htarget⟩
        next error _ => exact ⟨hgrows, htried between path error⟩
    next error _ _ => exact ⟨Grows.refl tree, htried tree path error⟩

/-- **A directory that could be created is there.** -/
theorem exists_target_of_createChain {directory : String}
    (h : tree.createChain (Path.ofText directory).chain = (.ok (), grown)) :
    ∃ place, grown.target (Path.ofText directory) = .ok (.directory place) := by
  have htarget := (createChain_grows tree (Path.ofText directory).chain).2
  rw [h] at htarget
  exact htarget rfl _ rfl

/-! ## Writing files -/

theorem lookup_cons_eq_ite (place other : Place) (content : String)
    (files : List (Place × String)) :
    ((place, content) :: files).lookup other =
      if other = place then some content else files.lookup other := by
  by_cases heq : other = place
  · rw [if_pos heq, heq, List.lookup_cons_self]
  · rw [if_neg heq, List.lookup_cons, beq_eq_false_iff_ne.mpr heq]

/-- A written file is at its place, and all other files are where they were. -/
theorem lookup_putFile (place other : Place) (content : String) (files : List (Place × String)) :
    (putFile place content files).lookup other =
      if other = place then some content else files.lookup other := by
  induction files with
  | nil => rw [putFile, lookup_cons_eq_ite]
  | cons file rest ih =>
    obtain ⟨first, old⟩ := file
    rw [putFile]
    by_cases hfirst : first = place
    · subst hfirst
      rw [if_pos rfl, lookup_cons_eq_ite, lookup_cons_eq_ite]
      split <;> rfl
    · rw [if_neg hfirst, lookup_cons_eq_ite, lookup_cons_eq_ite, ih]
      by_cases heq : other = first
      · rw [if_pos heq, if_neg (heq ▸ hfirst), if_pos heq]
      · rw [if_neg heq, if_neg heq]

/-- A file can be written under a name in the directory at a place. -/
def Accepts (tree : FileTree) (place : Place) (name : String) : Prop :=
  name.utf8ByteSize ≤ nameLimit ∧ tree.isDirectory (place ++ [name]) = false

/-- The tree with one more file. -/
def put (tree : FileTree) (place : Place) (content : String) : FileTree :=
  { tree with files := putFile place content tree.files }

theorem content?_put {other : Place} {content : String} :
    (tree.put place content).content? other =
      if other = place then some content else tree.content? other :=
  lookup_putFile place other content tree.files

/-- A written file leaves all directories as they are. -/
theorem target_put {content : String} (h : tree.target path = .ok (.directory there)) :
    (tree.put place content).target path = .ok (.directory there) := by
  have hdirectories : ∀ other, tree.isDirectory other →
      (tree.put place content).isDirectory other :=
    fun _ => id
  exact target_eq_directory hdirectories rfl h

/-- **A file can be written under a name in a directory** if the directory accepts the name;
otherwise there is an error. -/
theorem write_joinPath {directory name : String}
    (h : tree.target (Path.ofText directory) = .ok (.directory place))
    (hname : IsPathComponent name)
    (content : String) :
    (tree.Accepts place name ∧ tree.write (Path.ofText (joinPath directory name)) content =
        .ok (tree.put (place ++ [name]) content)) ∨
      (¬ tree.Accepts place name ∧
        ∃ error, tree.write (Path.ofText (joinPath directory name)) content = .error error) := by
  have hopen := (Path.ofText_joinPath (ne_empty_of_target h) hname).2
  rw [write, target_joinPath h hname, step_of_ne hname.ne_here hname.ne_above, hopen]
  by_cases hsize : nameLimit < name.utf8ByteSize
  · rw [if_pos hsize]
    exact Or.inr ⟨fun haccepts => absurd haccepts.1 (by omega), _, rfl⟩
  · rw [if_neg hsize, find]
    by_cases hdirectory : tree.isDirectory (place ++ [name]) = true
    · rw [if_pos hdirectory]
      exact Or.inr ⟨fun haccepts => by simp [haccepts.2] at hdirectory, _, rfl⟩
    · rw [if_neg hdirectory]
      refine Or.inl ⟨⟨by omega, by simpa using hdirectory⟩, ?_⟩
      cases tree.content? (place ++ [name]) <;> rfl

/-- **A file that is at the place of a name in a directory is read under it.** -/
theorem read_joinPath {directory name : String} {content : String}
    (h : tree.target (Path.ofText directory) = .ok (.directory place))
    (hname : IsPathComponent name)
    (haccepts : tree.Accepts place name)
    (hcontent : tree.content? (place ++ [name]) = some content) :
    tree.read (Path.ofText (joinPath directory name)) = .ok content := by
  have hopen := (Path.ofText_joinPath (ne_empty_of_target h) hname).2
  have hsize : ¬ nameLimit < name.utf8ByteSize := by
    have := haccepts.1
    omega
  rw [read, target_joinPath h hname, step_of_ne hname.ne_here hname.ne_above, if_neg hsize, find,
    if_neg (by simp [haccepts.2]), hcontent, hopen]
  rfl

end FileTree

end ApiScribe
