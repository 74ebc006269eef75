import BuildGraph.SortedMap

/-!
# Files

Commands read and write files by path. They are written against a small interface, which the real
file system provides, and so does a tree of files held as a value.

Files are reached from the root if their path begins with a slash, and otherwise from the directory
that the commands work in. A tree has no links, and everything in it may be read and written.
-/

namespace BuildGraph

/-- Why a file cannot be read or written. -/
inductive FileError where
  | notFound
  | notDirectory
  | isDirectory
  | notText
  | other (reason : String)
deriving DecidableEq, Repr

/-- The wording of each error. -/
def FileError.message : FileError → String
  | .notFound => "No such file or directory (os error 2)"
  | .notDirectory => "Not a directory (os error 20)"
  | .isDirectory => "Is a directory (os error 21)"
  | .notText => "stream did not contain valid UTF-8"
  | .other reason => reason

/-- A place with files: their whole text is read and written. -/
class Files (m : Type → Type) where
  read : String → m (Except FileError String)
  write : String → String → m (Except FileError Unit)

/-- What a tree holds at a place. -/
inductive FileTree.Entry where
  | directory
  | text (text : String)
  /-- A file whose bytes are no text. -/
  | bytes (content : List UInt8)
deriving DecidableEq

/-- The entry at a place, given by the names that lead there from the root. The root is a
directory. -/
def FileTree.entryAt? (entries : SortedMap (List String) Entry) (place : List String) :
    Option Entry :=
  if place = [] then some .directory else entries.get? place

/-- Directories and files, each at its place. -/
structure FileTree where
  entries : SortedMap (List String) FileTree.Entry
  /-- The directory from which a path leads that does not begin at the root. -/
  workingDirectory : List String := []
  /-- Whatever there is, is in a directory. -/
  closed : ∀ place ∈ entries.keys, FileTree.entryAt? entries place.dropLast = some .directory
  working : FileTree.entryAt? entries workingDirectory = some .directory
deriving DecidableEq

namespace FileTree

/-- What is found at a place. -/
def found? (tree : FileTree) (place : List String) : Option Entry := entryAt? tree.entries place

/-! ## Paths -/

/-- The names on a path, between slashes. -/
def names (path : String) : List String :=
  ((path.toList.splitOn '/').filter fun name => !name.isEmpty).map String.ofList

/-- Whether a path ends in a slash, and so can only be that of a directory. -/
def endsInSlash (path : String) : Bool := path.toList.getLast? == some '/'

/-- Where a path begins. -/
def start (tree : FileTree) (path : String) : List String :=
  if path.toList.head? = some '/' then [] else tree.workingDirectory

/-- Follow names from a place; the directories on the way have to be there. At the last name there
need not be anything. -/
def walk (tree : FileTree) (place : List String) : List String → Except FileError (List String)
  | [] => .ok place
  | name :: names =>
    match tree.found? place with
    | some .directory =>
      if name == "." then tree.walk place names
      else if name == ".." then tree.walk place.dropLast names
      else tree.walk (place ++ [name]) names
    | some _ => .error .notDirectory
    | none => .error .notFound

/-- The place that a path means. -/
def locate (tree : FileTree) (path : String) : Except FileError (List String) :=
  if path.isEmpty then .error .notFound else tree.walk (tree.start path) (names path)

/-! ## Files -/

/-- Read a file. -/
def read (tree : FileTree) (path : String) : Except FileError String := do
  match tree.found? (← tree.locate path) with
  | none => .error .notFound
  | some .directory => .error .isDirectory
  | some (.text text) => if endsInSlash path then .error .notDirectory else .ok text
  | some (.bytes _) => if endsInSlash path then .error .notDirectory else .error .notText

/-- A file can be put at a place: the directory is there, and no other at the place itself. -/
structure HasRoom (tree : FileTree) (place : List String) : Prop where
  directory : tree.found? place.dropLast = some .directory
  free : tree.found? place ≠ some .directory

instance (tree : FileTree) (place : List String) : Decidable (tree.HasRoom place) :=
  decidable_of_iff
    (tree.found? place.dropLast = some .directory ∧ tree.found? place ≠ some .directory)
    ⟨fun h => ⟨h.1, h.2⟩, fun h => ⟨h.directory, h.free⟩⟩

variable {tree : FileTree} {place other : List String}

theorem entryAt?_insert (h : tree.HasRoom place) (text : String) (other : List String) :
    entryAt? (tree.entries.insert place (.text text)) other =
      if other = place then some (.text text) else tree.found? other := by
  have hplace : place ≠ [] := by
    rintro rfl
    exact h.free rfl
  rw [found?, entryAt?, entryAt?, SortedMap.get?_insert]
  by_cases hother : other = place
  · simp [hother, hplace]
  · simp [hother]

/-- Directories stay where they are. -/
theorem directory_of_insert (h : tree.HasRoom place) (text : String)
    (hother : tree.found? other = some .directory) :
    entryAt? (tree.entries.insert place (.text text)) other = some .directory := by
  have hne : other ≠ place := by
    rintro rfl
    exact h.free hother
  rw [entryAt?_insert h, if_neg hne, hother]

/-- The tree with a file that holds a text at a place, in place of one that is there. -/
def put (tree : FileTree) (place : List String) (text : String) (h : tree.HasRoom place) :
    FileTree where
  entries := tree.entries.insert place (.text text)
  workingDirectory := tree.workingDirectory
  closed other hother := by
    rcases SortedMap.mem_keys_insert.mp hother with rfl | hother
    · exact directory_of_insert h text h.directory
    · exact directory_of_insert h text (tree.closed other hother)
  working := directory_of_insert h text tree.working

/-- Write a file, in place of one that is there. -/
def write (tree : FileTree) (path text : String) : Except FileError FileTree := do
  let place ← tree.locate path
  if endsInSlash path then .error .isDirectory
  else if h : tree.HasRoom place then .ok (tree.put place text h)
  else .error .isDirectory

end FileTree

/-- A tree of files as it changes. -/
instance : Files (StateM FileTree) where
  read path := return (← get).read path
  write path text := do
    match (← get).write path text with
    | .ok tree => set tree; return .ok ()
    | .error error => return .error error

end BuildGraph
