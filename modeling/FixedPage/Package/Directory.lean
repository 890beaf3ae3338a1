import FixedPage.Package.Archive

/-
  This file reads packages that are stored as a directory tree.
  Every file of the tree is a part named by its path from the
  root. A folder is gone through once for the places of its files,
  which are read when they are asked for, or it is read into memory
  as a whole.

  Main declarations:
    * `Directory.Tree`
    * `Directory.Tree.files`
    * `Directory.locate`
    * `Directory.openAt`
    * `Directory.Survey`
    * `Directory.Archive`
    * `Directory.Archive.openAt`
    * `Directory.Tree.ofFiles`
-/

namespace FixedPage.Directory

------------------------------------------------------------
-- Trees
------------------------------------------------------------

/- A file or a folder with named entries. -/
inductive Tree where
  | file
      (content : List UInt8)
  | folder
      (entries : List (String × Tree))

mutual

/- Number of files and folders in a tree, itself included. -/
def Tree.count : Tree → Nat
| .file _ => 1
| .folder entries => entryCount entries + 1

/- Number of files and folders among and below some entries. -/
def entryCount : List (String × Tree) → Nat
| [] => 0
| (_, tree) :: rest => tree.count + entryCount rest

end

/- The name of an entry below a folder. -/
def below
    (folder name : String) : String :=
  if folder.isEmpty then name else folder ++ "/" ++ name

mutual

/- The files of a tree, named by their paths. -/
def Tree.files
    (path : String) :
    Tree → List (String × List UInt8)
| .file content => [(path, content)]
| .folder entries => entryFiles path entries

/- The files below some entries of a folder. -/
def entryFiles
    (path : String) :
    List (String × Tree) → List (String × List UInt8)
| [] => []
| (name, tree) :: rest =>
    tree.files (below path name) ++ entryFiles path rest

end

------------------------------------------------------------
-- Places
------------------------------------------------------------

/-
  Follows segments into a tree. `outer` holds the folders around
  it, the innermost first; what lies outside of all of them is
  not found.
-/
def locate
    (outer : List Tree) :
    Tree → List String → Except SystemFault Tree
| tree, [] => .ok tree
| .file _, _ :: _ => .error .notADirectory
| .folder entries, name :: rest =>
    if name == "" || name == "." then
      locate outer (.folder entries) rest
    else if name == ".." then
      match outer with
      | folder :: outer => locate outer folder rest
      | [] => .error .notFound
    else
      match entries.lookup name with
      | some tree => locate (.folder entries :: outer) tree rest
      | none => .error .notFound

/- The content of the file at a place. -/
def contentAt
    (tree : Tree)
    (place : List String) : Except SystemFault (List UInt8) := do
  match ← locate [] tree place with
  | .file content => pure content
  | .folder _ => throw .isADirectory

------------------------------------------------------------
-- Packages in memory
------------------------------------------------------------

/- The package stored in a folder. -/
def package : Tree → Except SystemFault Package
| .file _ => .error .notADirectory
| .folder entries => .ok (.ofList (entryFiles "" entries))

/- The package stored at a place in a tree. -/
def openAt
    (tree : Tree)
    (path : List String) : Except SystemFault Package := do
  let found ← locate [] tree path
  package found

------------------------------------------------------------
-- Surveys
------------------------------------------------------------

/- A folder that is still to be gone through, and its place. -/
structure Pending where
  place : List String
  entries : List (String × Tree)

/-
  How far a folder has been gone through: folders below it that are
  pending, the next one first, and the places of files by the keys
  of their names, each key once.
-/
structure Survey where
  pending : List Pending
  index : List (String × List String)

/- The way from one place to another one below it. -/
def wayFrom?
    (root place : List String) : Option (List String) :=
  if root.isPrefixOf place then some (place.drop root.length) else none

namespace Survey

/- Adds a place or replaces the one of the same key. -/
def enter
    (s : Survey)
    (key : String)
    (place : List String) : Survey :=
  { s with
    index := (key, place) :: s.index.filter (fun entry => entry.1 != key) }

/-
  Takes note of an entry of a folder. A folder is put aside; a file
  is entered under its way from the root of the package.
-/
def note
    (root folder : List String)
    (s : Survey)
    (entry : String × Tree) : Survey :=
  let place := folder ++ [entry.1]
  match entry.2 with
  | .folder entries =>
      { s with pending := ⟨place, entries⟩ :: s.pending }
  | .file _ =>
      match wayFrom? root place with
      | some way => s.enter (PartName.key ("/".intercalate way)) place
      | none => s

/- Takes note of all entries of a folder. -/
def visit
    (root : List String)
    (s : Survey)
    (folder : Pending) : Survey :=
  folder.entries.foldl (note root folder.place) s

/- Number of pending folders and of what lies below them. -/
def left
    (s : Survey) : Nat :=
  s.pending.foldr (fun folder n => entryCount folder.entries + 1 + n) 0

/- To visit a folder puts aside no more than lies below it. -/
theorem left_visit_le
    (root : List String)
    (s : Survey)
    (folder : Pending) :
    (s.visit root folder).left ≤ s.left + entryCount folder.entries := by
  obtain ⟨place, entries⟩ := folder
  unfold visit
  dsimp only
  induction entries generalizing s with
  | nil => exact Nat.le_refl _
  | cons entry entries ih =>
      obtain ⟨name, tree⟩ := entry
      have hFirst :
          (s.note root place (name, tree)).left ≤ s.left + tree.count := by
        cases tree with
        | file content =>
            unfold note
            dsimp only
            split <;> exact Nat.le_add_right _ _
        | folder entries =>
            simp only [note, left, List.foldr_cons, Tree.count]
            omega
      have hRest := ih (s.note root place (name, tree))
      rw [List.foldl_cons, entryCount]
      omega

/- Goes through pending folders until none is left. -/
def finish
    (root : List String)
    (s : Survey) : List (String × List String) :=
  match _hPending : s.pending with
  | [] => s.index
  | folder :: pending =>
      finish root (visit root ⟨pending, s.index⟩ folder)
termination_by s.left
decreasing_by
  have hVisit := left_visit_le root ⟨pending, s.index⟩ folder
  simp only [left, _hPending, List.foldr_cons] at hVisit ⊢
  omega

end Survey

------------------------------------------------------------
-- Archives
------------------------------------------------------------

/- A package whose parts are read from a tree when asked for. -/
structure Archive where
  tree : Tree
  root : List String
  index : List (String × List String)

namespace Archive

/- The archive of the folder at a place in a tree. -/
def openAt
    (tree : Tree)
    (root : List String) : Except SystemFault Archive := do
  match ← locate [] tree root with
  | .file _ => throw .notADirectory
  | .folder entries =>
      pure ⟨tree, root, Survey.finish root ⟨[⟨root, entries⟩], []⟩⟩

/- The place of a part. -/
def place?
    (a : Archive)
    (name : String) : Option (List String) :=
  a.index.lookup (PartName.key name)

/- Number of parts. -/
def size
    (a : Archive) : Nat :=
  a.index.length

/- The content of a part, read from its file. -/
def content
    (a : Archive)
    (name : String) : Except Error (List UInt8) :=
  match a.place? name with
  | some place => (contentAt a.tree place).mapError .system
  | none => .error (.notFound name)

/- A file gives the same bytes piece by piece and as a whole. -/
instance : PartReader Archive where
  has := fun a name => (a.place? name).isSome
  stream := content
  read := content

end Archive

------------------------------------------------------------
-- Building
------------------------------------------------------------

/- Adds a file to a tree, with the folders on its way. -/
def addFile
    (content : List UInt8) :
    List String → Tree → Tree
| [], _ => .file content
| name :: rest, tree =>
    let entries :=
      match tree with
      | .folder entries => entries
      | .file _ => []
    let inner := (entries.lookup name).getD (.folder [])
    .folder
      ((name, addFile content rest inner)
        :: entries.filter (fun entry => entry.1 != name))

/- Segments of a path. -/
def segments
    (path : String) : List String :=
  (PartName.segments path.toList).map String.ofList

/- The tree of some files, named by their paths. -/
def Tree.ofFiles
    (files : List (String × List UInt8)) : Tree :=
  files.foldl
    (fun tree file => addFile file.2 (segments file.1) tree)
    (.folder [])

end FixedPage.Directory
