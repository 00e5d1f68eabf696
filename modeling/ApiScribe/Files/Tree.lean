import ApiScribe.Files.Access
import ApiScribe.Text.Lines

/-!
# File trees

A tree of directories and files as a value.  A place in the tree is the list of names that lead to
it from the root, and the tree records which places are directories and what the files contain.
A path is read from the working directory, or from the root if it begins with a slash; in it `.`
stays where it is and `..` goes to the directory above.

The operations fail in the way of a file system: a path that leads through a file, to nothing, or
to the wrong kind of thing is an error, and nothing changes by an operation that fails, except
that the creation of a chain of directories may stop half-way.
-/

namespace ApiScribe

/-- A place in a tree: the names that lead to it. -/
abbrev Place := List String

/-- A tree of directories and files. -/
structure FileTree where
  workingDirectory : Place := []
  directories : List Place := []
  files : List (Place × String) := []
deriving DecidableEq, Repr, Inhabited

/-- A path, split into its parts. -/
structure Path where
  absolute : Bool
  parts : List String
  /-- Does the path end in a slash, as only the path of a directory may? -/
  closed : Bool
deriving DecidableEq, Repr, Inhabited

namespace Path

/-- The path that a text spells. -/
def ofText (text : String) : Path :=
  let cs := text.toList
  { absolute := cs.head? = some '/'
    parts := (Text.words (fun c => c = '/') cs).map String.ofList
    closed := cs.getLast? = some '/' }

/-- The paths of the first few of some names, longest first, the empty one left out. -/
def ancestors (absolute : Bool) (names : List String) : List Path :=
  (List.range names.length).reverse.map fun n =>
    { absolute, parts := names.take (n + 1), closed := false }

/-- The path itself and the paths that lead to it, nearest first.  Parts that stay where they are
do not count on the way. -/
def chain (path : Path) : List Path :=
  path :: ancestors path.absolute (path.parts.filter fun part => part ≠ ".").dropLast

end Path

namespace FileTree

/-- Names are at most this many bytes long. -/
def nameLimit : Nat := 255

/-- Is the place a directory? -/
def isDirectory (tree : FileTree) (place : Place) : Bool :=
  place.isEmpty || tree.directories.contains place

/-- The content of the file at a place. -/
def content? (tree : FileTree) (place : Place) : Option String :=
  tree.files.lookup place

/-- What a name in a directory leads to. -/
inductive Target where
  | directory (place : Place)
  | file (place : Place) (content : String)
  | nothing (place : Place)
deriving DecidableEq, Repr, Inhabited

/-- Look up a part of a path in a directory. -/
def step (tree : FileTree) (here : Place) (part : String) : Except FileError Target :=
  if part = "." then .ok (.directory here)
  else if part = ".." then .ok (.directory here.dropLast)
  else if nameLimit < part.utf8ByteSize then .error .nameTooLong
  else
    let there := here ++ [part]
    if tree.isDirectory there then .ok (.directory there)
    else match tree.content? there with
      | some content => .ok (.file there content)
      | none => .ok (.nothing there)

/-- What a path leads to from a directory; only directories may stand on the way. -/
def walk (tree : FileTree) (here : Place) : List String → Except FileError Target
  | [] => .ok (.directory here)
  | part :: rest =>
    match tree.step here part with
    | .error error => .error error
    | .ok (.directory there) => walk tree there rest
    | .ok (.file place content) =>
      if rest.isEmpty then .ok (.file place content) else .error .notDirectory
    | .ok (.nothing place) => if rest.isEmpty then .ok (.nothing place) else .error .notFound

/-- What a path leads to. -/
def target (tree : FileTree) (path : Path) : Except FileError Target :=
  if path.parts.isEmpty && !path.absolute then .error .notFound
  else tree.walk (if path.absolute then [] else tree.workingDirectory) path.parts

/-- The text of a file. -/
def read (tree : FileTree) (path : Path) : Except FileError String :=
  match tree.target path with
  | .error error => .error error
  | .ok (.directory _) => .error .isDirectory
  | .ok (.file _ content) => if path.closed then .error .notDirectory else .ok content
  | .ok (.nothing _) => .error .notFound

/-- Does a path lead to a directory? -/
def leadsToDirectory (tree : FileTree) (path : Path) : Bool :=
  match tree.target path with
  | .ok (.directory _) => true
  | _ => false

/-- The tree with a new directory. -/
def createDirectory (tree : FileTree) (path : Path) : Except FileError FileTree :=
  match tree.target path with
  | .error error => .error error
  | .ok (.directory _) => .error .exists
  | .ok (.file ..) => .error .exists
  | .ok (.nothing place) => .ok { tree with directories := tree.directories ++ [place] }

/-- Create the first of some paths as a directory; where the way to it is missing, create the next
one first.  A path that leads to a directory already is left alone. -/
def createChain (tree : FileTree) : List Path → Except FileError Unit × FileTree
  | [] => (.ok (), tree)
  | path :: parents =>
    match tree.createDirectory path with
    | .ok tree => (.ok (), tree)
    | .error .notFound =>
      match tree.createChain parents with
      | (.error error, tree) => (.error error, tree)
      | (.ok (), tree) =>
        match tree.createDirectory path with
        | .ok tree => (.ok (), tree)
        | .error error => (if tree.leadsToDirectory path then .ok () else .error error, tree)
    | .error error => (if tree.leadsToDirectory path then .ok () else .error error, tree)

/-- Files with one more, which replaces the file that was at its place. -/
def putFile (place : Place) (content : String) : List (Place × String) → List (Place × String)
  | [] => [(place, content)]
  | (other, old) :: rest =>
    if other = place then (place, content) :: rest else (other, old) :: putFile place content rest

/-- The tree with a file written. -/
def write (tree : FileTree) (path : Path) (content : String) : Except FileError FileTree :=
  match tree.target path with
  | .error error => .error error
  | .ok (.directory _) => .error .isDirectory
  | .ok (.file place _) =>
    if path.closed then .error .isDirectory
    else .ok { tree with files := putFile place content tree.files }
  | .ok (.nothing place) =>
    if path.closed then .error .isDirectory
    else .ok { tree with files := putFile place content tree.files }

instance : FileAccess (StateM FileTree) where
  read path := fun tree => (tree.read (Path.ofText path), tree)
  createDirectories path := fun tree => tree.createChain (Path.ofText path).chain
  write path content := fun tree =>
    match tree.write (Path.ofText path) content with
    | .ok tree => (.ok (), tree)
    | .error error => (.error error, tree)

end FileTree

end ApiScribe
