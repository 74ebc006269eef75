import BuildGraph.Command.Files

/-!
# Writing a file

A path means a place. A file can be written there if the path does not end in a slash and no
directory is there; the directory around it is there already, since the path led through it
(`write_eq_ok_iff`).

A write replaces one file of a tree, the one that its path means, and leaves everything else as it
is (`replaces_of_write`). Afterwards the path means the same place, since paths are followed through
directories only, and whoever reads the file reads what was written.
-/

namespace BuildGraph.FileTree

variable {tree tree' : FileTree} {path text : String} {place result : List String}

/-! ## Places -/

/-- Whatever there is, is in a directory. -/
theorem directory_above {entry : Entry} (h : tree.found? place = some entry) :
    tree.found? place.dropLast = some .directory := by
  by_cases hplace : place = []
  · subst hplace
    rfl
  · rw [found?, entryAt?, if_neg hplace] at h
    exact tree.closed place (SortedMap.mem_keys.mpr (SortedMap.contains_of_get? h))

theorem found?_put (h : tree.HasRoom place) (text : String) (other : List String) :
    (tree.put place text h).found? other =
      if other = place then some (.text text) else tree.found? other :=
  entryAt?_insert h text other

theorem found?_put_self (h : tree.HasRoom place) (text : String) :
    (tree.put place text h).found? place = some (.text text) := by
  rw [found?_put, if_pos rfl]

theorem directory_put (h : tree.HasRoom place) (text : String) (other : List String) :
    (tree.put place text h).found? other = some .directory ↔
      tree.found? other = some .directory := by
  rw [found?_put]
  split
  next heq => simp [heq, h.free]
  next => rfl

/-! ## Paths -/

/-- Where a name leads from a directory. -/
def enter (place : List String) (name : String) : List String :=
  if name = "." then place else if name = ".." then place.dropLast else place ++ [name]

/-- A path goes on where its next name leads, if it is in a directory. -/
theorem walk_cons_eq_ok {name : String} {names : List String} :
    tree.walk place (name :: names) = .ok result ↔
      tree.found? place = some .directory ∧ tree.walk (enter place name) names = .ok result := by
  rw [walk, enter]
  split
  next hplace =>
    rw [and_iff_right hplace]
    by_cases hdot : name = "."
    · simp [hdot]
    · by_cases hup : name = ".."
      · simp [hup]
      · simp [hdot, hup]
  next entry hne hentry =>
    simp only [reduceCtorEq, false_iff]
    rintro ⟨hplace, -⟩
    exact hne (Option.some.inj (hentry.symm.trans hplace))
  next hnone => simp [hnone]

/-- A path never leaves the directories that it goes through. -/
theorem directory_of_walk {names : List String}
    (hplace : tree.found? place.dropLast = some .directory)
    (h : tree.walk place names = .ok result) :
    tree.found? result.dropLast = some .directory := by
  induction names generalizing place with
  | nil =>
    cases h
    exact hplace
  | cons name names ih =>
    obtain ⟨hdirectory, h⟩ := walk_cons_eq_ok.mp h
    refine ih ?_ h
    rw [enter]
    split
    · exact hplace
    split
    · exact directory_above hplace
    · rw [List.dropLast_concat]
      exact hdirectory

/-- Where a path leads depends on the directories only. -/
theorem walk_congr (hsame : ∀ place, tree'.found? place = some .directory ↔
    tree.found? place = some .directory) {names : List String} :
    tree'.walk place names = .ok result ↔ tree.walk place names = .ok result := by
  induction names generalizing place with
  | nil => rfl
  | cons name names ih => rw [walk_cons_eq_ok, walk_cons_eq_ok, hsame, ih]

theorem locate_eq_ok : tree.locate path = .ok place ↔
    path.isEmpty = false ∧ tree.walk (tree.start path) (names path) = .ok place := by
  rw [locate]
  by_cases hpath : path.isEmpty = true <;> simp [hpath]

theorem start_directory : tree.found? (tree.start path) = some .directory := by
  rw [start]
  split
  · rfl
  · exact tree.working

/-- What a path means is in a directory. -/
theorem directory_of_locate (h : tree.locate path = .ok place) :
    tree.found? place.dropLast = some .directory :=
  directory_of_walk (directory_above start_directory) (locate_eq_ok.mp h).2

theorem locate_put (h : tree.HasRoom place) {other : String} {found : List String} :
    (tree.put place text h).locate other = .ok found ↔ tree.locate other = .ok found := by
  rw [locate_eq_ok, locate_eq_ok, walk_congr (directory_put h text)]
  rfl

/-! ## Reading and writing -/

theorem read_eq_ok_iff : tree.read path = .ok text ↔
    endsInSlash path = false ∧
      ∃ place, tree.locate path = .ok place ∧ tree.found? place = some (.text text) := by
  rw [read]
  cases tree.locate path with
  | error e => simp [bind, Except.bind]
  | ok place =>
    simp only [bind, Except.bind, Except.ok.injEq, exists_eq_left']
    rcases tree.found? place with _ | (_ | found | content)
    · simp
    · simp
    · cases endsInSlash path <;> simp
    · cases endsInSlash path <;> simp

/-- A file is written where no directory is. -/
theorem write_eq_ok_iff : tree.write path text = .ok tree' ↔
    endsInSlash path = false ∧ ∃ place, tree.locate path = .ok place ∧
      ∃ h : tree.HasRoom place, tree' = tree.put place text h := by
  rw [write]
  cases tree.locate path with
  | error e => simp [bind, Except.bind]
  | ok place =>
    simp only [bind, Except.bind, Except.ok.injEq, exists_eq_left']
    cases endsInSlash path with
    | true => simp
    | false =>
      by_cases hroom : tree.HasRoom place
      · simp [hroom, eq_comm]
      · simp [hroom]

/-- `tree'` is `tree` but for the one file that a path means, which holds a text. -/
structure Replaces (tree : FileTree) (path text : String) (tree' : FileTree) : Prop where
  file : ∃ place, tree.locate path = .ok place ∧ tree'.found? place = some (.text text) ∧
    ∀ other, other ≠ place → tree'.found? other = tree.found? other
  workingDirectory : tree'.workingDirectory = tree.workingDirectory
  directories : ∀ place,
    tree'.found? place = some .directory ↔ tree.found? place = some .directory
  read : tree'.read path = .ok text
  /-- Through every path that means the file its text is read. -/
  same : ∀ other, tree.locate other = tree.locate path → endsInSlash other = false →
    tree'.read other = .ok text
  /-- Through paths that mean other files the same is read. -/
  others : ∀ other content, tree.locate other ≠ tree.locate path →
    (tree'.read other = .ok content ↔ tree.read other = .ok content)

theorem replaces_of_write (h : tree.write path text = .ok tree') :
    tree.Replaces path text tree' := by
  obtain ⟨hslash, place, hplace, hroom, rfl⟩ := write_eq_ok_iff.mp h
  have hreads : ∀ other, tree.locate other = .ok place → endsInSlash other = false →
      (tree.put place text hroom).read other = .ok text := fun other hother hend =>
    read_eq_ok_iff.mpr ⟨hend, place, (locate_put hroom).mpr hother, found?_put_self hroom text⟩
  refine ⟨⟨place, hplace, found?_put_self hroom text, fun other hother => ?_⟩, rfl,
    directory_put hroom text, hreads path hplace hslash,
    fun other hother => hreads other (hother.trans hplace), fun other content hother => ?_⟩
  · rw [found?_put, if_neg hother]
  · rw [read_eq_ok_iff, read_eq_ok_iff]
    refine and_congr_right fun _ => exists_congr fun found => ?_
    rw [locate_put]
    refine and_congr_right fun hfound => ?_
    have hne : found ≠ place := by
      rintro rfl
      exact hother (hfound.trans hplace.symm)
    rw [found?_put, if_neg hne]

/-- A file can be written wherever a path leads, but for directories. -/
theorem exists_write_iff : (∃ tree', tree.write path text = .ok tree') ↔
    endsInSlash path = false ∧
      ∃ place, tree.locate path = .ok place ∧ tree.found? place ≠ some .directory := by
  simp only [write_eq_ok_iff]
  constructor
  · rintro ⟨_, hslash, place, hplace, hroom, -⟩
    exact ⟨hslash, place, hplace, hroom.free⟩
  · rintro ⟨hslash, place, hplace, hfree⟩
    exact ⟨_, hslash, place, hplace, ⟨directory_of_locate hplace, hfree⟩, rfl⟩

end BuildGraph.FileTree
