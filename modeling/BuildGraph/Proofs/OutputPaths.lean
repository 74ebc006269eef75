import BuildGraph.Proofs.Wiring
import Mathlib.Data.List.TakeWhile

/-!
# Output paths

The output of a target is written below the root, in the directory of its package. Taken apart at
its slashes the path gives the segments of the root, those of the package and the name, so it names
its target, and nothing in it leads out of the root (`outputPaths`). Targets with different labels
never write the same file.

What separates the three parts also stands between the segments of two of them. That a name holds no
slash is what makes the last one the boundary of the name.
-/

namespace BuildGraph

/-! ## Segments -/

/-- A segment that can only mean an entry of the directory it stands in: not empty, neither `.` nor
`..`, and written with letters, digits, `_`, `.`, `+` and `-`. -/
structure PlainSegment (segment : List Char) : Prop where
  nonempty : segment ≠ []
  notCurrent : segment ≠ ['.']
  notParent : segment ≠ ['.', '.']
  characters : ∀ c ∈ segment, c.isAlphanum = true ∨ c ∈ ['_', '.', '+', '-']

theorem plainSegment_of_isComponent {cs : List Char} (h : isComponent cs = true) :
    PlainSegment cs := by
  simp only [isComponent, Bool.and_eq_true, Bool.not_eq_true', bne_iff_ne, ne_eq,
    List.isEmpty_eq_false_iff] at h
  obtain ⟨⟨⟨hempty, hcurrent⟩, hparent⟩, -⟩ := id h
  refine ⟨hempty, hcurrent, hparent, fun c hc => ?_⟩
  have hchar := List.all_eq_true.mp h.2 c hc
  simpa [isLabelChar, or_assoc] using hchar

theorem isComponent_iff {cs : List Char} : isComponent cs = true ↔ PlainSegment cs := by
  refine ⟨plainSegment_of_isComponent, fun h => ?_⟩
  have hchars : cs.all isLabelChar = true := List.all_eq_true.mpr fun c hc => by
    simpa [isLabelChar, or_assoc] using h.characters c hc
  simp [isComponent, h.nonempty, h.notCurrent, h.notParent, hchars]

namespace PackagePath

/-- The segments of a package path. -/
def segments (package : PackagePath) : List (List Char) := package.text.toList.splitOn '/'

theorem plainSegment (package : PackagePath) : ∀ s ∈ package.segments, PlainSegment s := by
  intro s hs
  exact plainSegment_of_isComponent (List.all_eq_true.mp package.valid s hs)

/-- No segment is empty, so a last slash has something after it. -/
theorem nil_notMem_segments (package : PackagePath) : [] ∉ package.segments :=
  fun hmem => (package.plainSegment [] hmem).nonempty rfl

theorem not_slash_isSuffix (package : PackagePath) : ¬ ['/'] <:+ package.text.toList := by
  rintro ⟨start, hstart⟩
  refine package.nil_notMem_segments ?_
  rw [segments, ← hstart]
  exact (List.splitOn_append_cons_self start []).symm ▸ List.mem_append_right _ (by simp)

end PackagePath

/-! ## Roots -/

namespace Project

/-- What is trimmed from the end of a root is slashes. -/
theorem eq_append_replicate (cs : List Char) :
    ∃ n, cs = (cs.reverse.dropWhile (· == '/')).reverse ++ List.replicate n '/' := by
  refine ⟨(cs.reverse.takeWhile (· == '/')).length, ?_⟩
  have hslashes : cs.reverse.takeWhile (· == '/') =
      List.replicate (cs.reverse.takeWhile (· == '/')).length '/' := by
    refine List.eq_replicate_of_mem fun c hc => ?_
    simpa using List.mem_takeWhile_imp hc
  calc cs = (cs.reverse.takeWhile (· == '/') ++ cs.reverse.dropWhile (· == '/')).reverse := by
        rw [List.takeWhile_append_dropWhile, List.reverse_reverse]
    _ = (cs.reverse.dropWhile (· == '/')).reverse ++
          (cs.reverse.takeWhile (· == '/')).reverse := List.reverse_append
    _ = _ := by rw [← List.reverse_replicate, ← hslashes]

/-- A package path does not end in a slash, so all of it is left when slashes after it are
trimmed. -/
theorem trim_append_replicate (package : PackagePath) (n : Nat) :
    ((package.text.toList ++ List.replicate n '/').reverse.dropWhile (· == '/')).reverse =
      package.text.toList := by
  rw [List.reverse_append, List.reverse_replicate,
    List.dropWhile_append_of_pos (by simp +contextual [List.mem_replicate])]
  cases hlast : package.text.toList.reverse with
  | nil => simpa using hlast
  | cons c rest =>
    have hc : c ≠ '/' := by
      rintro rfl
      refine package.not_slash_isSuffix ⟨rest.reverse, ?_⟩
      rw [← List.reverse_cons, ← hlast, List.reverse_reverse]
    rw [List.dropWhile_cons_of_neg (by simp [hc]), ← hlast, List.reverse_reverse]

/-- A root is read from a package path with any number of slashes after it, and from nothing else. -/
theorem parseGenroot_eq_ok_iff {text : String} {genroot : PackagePath} :
    parseGenroot text = .ok genroot ↔
      ∃ n, text.toList = genroot.text.toList ++ List.replicate n '/' := by
  rw [parseGenroot]
  constructor
  · intro h
    split at h
    next path hpath =>
      cases h
      obtain ⟨n, hn⟩ := eq_append_replicate text.toList
      refine ⟨n, ?_⟩
      rw [PackagePath.text_of_ofString hpath, String.toList_ofList]
      exact hn
    next => cases h
  · rintro ⟨n, hn⟩
    simp only [hn, trim_append_replicate, String.ofList_toList, PackagePath.ofString_text]

theorem make_some_eq_ok_iff {project : Project} {environments : EnvironmentRegistry}
    {text : String} : make environments (some text) = .ok project ↔
      environments = project.environments ∧
      ∃ n, text.toList = project.genroot.text.toList ++ List.replicate n '/' := by
  rw [← parseGenroot_eq_ok_iff, make]
  cases hgenroot : parseGenroot text with
  | error e => simp [Except.map]
  | ok genroot =>
    cases project with
    | mk root registry => simp [Except.map, and_comm]

/-! ## Output paths -/

/-- The parts of an output path. -/
theorem splitOn_outputPath (project : Project) (l : Label) :
    (project.outputPath l).toList.splitOn '/' =
      project.genroot.segments ++ l.package.segments ++ [l.name.toList] := by
  rw [toList_outputPath, List.splitOn_append_cons_self, List.splitOn_append_cons_self,
    List.splitOn_eq_singleton (slash_notMem_of_isComponent l.valid)]
  rfl

theorem plainSegment_outputPath (project : Project) (l : Label) :
    ∀ s ∈ (project.outputPath l).toList.splitOn '/', PlainSegment s := by
  intro s hs
  rw [splitOn_outputPath] at hs
  simp only [List.mem_append, List.mem_singleton] at hs
  rcases hs with (hs | hs) | rfl
  · exact project.genroot.plainSegment s hs
  · exact l.package.plainSegment s hs
  · exact plainSegment_of_isComponent l.valid

theorem genroot_isPrefix_outputPath (project : Project) (l : Label) :
    project.genroot.text.toList ++ ['/'] <+: (project.outputPath l).toList := by
  refine ⟨l.package.text.toList ++ '/' :: l.name.toList, ?_⟩
  simp [toList_outputPath]

theorem not_slash_isPrefix_outputPath (project : Project) (l : Label) :
    ¬ ['/'] <+: (project.outputPath l).toList := by
  rintro ⟨rest, hrest⟩
  have hplain := project.plainSegment_outputPath l []
  rw [← hrest, List.singleton_append, ← List.nil_append ('/' :: rest),
    List.splitOn_append_cons_self] at hplain
  exact (hplain (List.mem_append_left _ (by simp))).nonempty rfl

end Project

/-- Where the targets of a project write. -/
structure OutputPaths (project : Project) : Prop where
  /-- The root is what the descriptor names, without slashes at its end. -/
  genroot : ∀ environments text, Project.make environments (some text) = .ok project ↔
    environments = project.environments ∧
    ∃ n, text.toList = project.genroot.text.toList ++ List.replicate n '/'
  injective : ∀ a b, project.outputPath a = project.outputPath b → a = b
  segments : ∀ l, (project.outputPath l).toList.splitOn '/' =
    project.genroot.segments ++ l.package.segments ++ [l.name.toList]
  plain : ∀ l, ∀ s ∈ (project.outputPath l).toList.splitOn '/', PlainSegment s
  relative : ∀ l, ¬ ['/'] <+: (project.outputPath l).toList
  below : ∀ l, project.genroot.text.toList ++ ['/'] <+: (project.outputPath l).toList
  /-- The package of a target says the same. -/
  package : ∀ l : Label, (Package.mk project l.package).outputPath l.name = project.outputPath l
  /-- So does the run of the tool that is declared under its name. -/
  run : ∀ (l : Label) (environment : String) (source : Artifact) (options : String),
    ∃ run, Objcopy.make ⟨project, l.package⟩ l.name environment source options = .ok run ∧
      run.label = l ∧ run.outputPath = project.outputPath l
  /-- No two outputs of an assembly of runs and bundles are the same file. -/
  apart : ∀ (descriptor : Descriptor) (targets : List Target) (rules : RuleTable) (a : Assembly),
    descriptor.load .withBundle = .ok ⟨project, targets⟩ →
    assemble project rules targets = .ok a → (a.edges.flatMap Edge.outputs).Nodup

/-! ## Assemblies -/

section Assemblies

variable {descriptor : Descriptor} {loaded : Loaded} {steps made : List Step} {rules : RuleTable}
variable {a : Assembly}

theorem Declares.labels_nodup (h : Declares descriptor loaded steps) :
    (steps.map Step.label).Nodup := by
  rw [← h.labels_eq]
  exact h.distinct

/-- The outputs of wired edges are those of their steps. -/
theorem outputs_of_forall₂_wired {edges : List Edge}
    (h : List.Forall₂ (Wired loaded) made edges) :
    edges.flatMap Edge.outputs = (made.map Step.label).map loaded.project.outputPath := by
  induction h with
  | nil => rfl
  | cons hwired _ ih =>
    rw [List.flatMap_cons, List.map_cons, List.map_cons, hwired.outputs, ih]
    rfl

/-- The outputs of an assembly are those of the lowered targets. -/
theorem mem_outputs_of_assemble (h : descriptor.load .withBundle = .ok loaded)
    (ha : assemble loaded.project rules loaded.targets = .ok a) {path : String} :
    path ∈ a.edges.flatMap Edge.outputs ↔
      ∃ l, a.lowered.contains l = true ∧ path = loaded.project.outputPath l := by
  obtain ⟨steps, hdeclares⟩ := declares_of_load h
  obtain ⟨made, hperm, hwired⟩ := hdeclares.exists_made_of_assemble ha
  have hmade : ∀ step, step ∈ made ↔ step ∈ steps ∧ a.lowered.contains step.label = true :=
    fun step => by rw [hperm.mem_iff, List.mem_filter]
  rw [outputs_of_forall₂_wired hwired, List.map_map, List.mem_map]
  constructor
  · rintro ⟨step, hstep, rfl⟩
    exact ⟨step.label, ((hmade step).mp hstep).2, rfl⟩
  · rintro ⟨l, hl, rfl⟩
    have hmem := (settled_of_assemble hdeclares.distinct ha).mem_labels_of_lowered hl
    rw [hdeclares.labels_eq] at hmem
    obtain ⟨step, hstep, rfl⟩ := List.mem_map.mp hmem
    exact ⟨step, (hmade step).mpr ⟨hstep, hl⟩, rfl⟩

/-- No two outputs of an assembly are the same file: different steps have different labels. -/
theorem outputs_nodup_of_assemble (h : descriptor.load .withBundle = .ok loaded)
    (ha : assemble loaded.project rules loaded.targets = .ok a) :
    (a.edges.flatMap Edge.outputs).Nodup := by
  obtain ⟨steps, hdeclares⟩ := declares_of_load h
  obtain ⟨made, hperm, hwired⟩ := hdeclares.exists_made_of_assemble ha
  have hmade : (made.map Step.label).Nodup := by
    refine (hperm.map Step.label).nodup_iff.mpr ?_
    exact hdeclares.labels_nodup.sublist (List.filter_sublist.map Step.label)
  rw [outputs_of_forall₂_wired hwired]
  exact hmade.map fun _ _ => loaded.project.outputPath_injective

end Assemblies

/-- Whatever the root of a project: its output paths name their targets and stay below it. -/
theorem outputPaths (project : Project) : OutputPaths project where
  genroot _ _ := Project.make_some_eq_ok_iff
  injective _ _ := project.outputPath_injective
  segments := project.splitOn_outputPath
  plain := project.plainSegment_outputPath
  relative := project.not_slash_isPrefix_outputPath
  below := project.genroot_isPrefix_outputPath
  package := Package.outputPath_name project
  run l environment source options := by
    refine ⟨{ project, label := l, environment, source, options }, ?_, rfl,
      Package.outputPath_name project l⟩
    rw [Objcopy.make, Package.label, Label.make_name]
    rfl
  apart _ _ _ _ hload ha := outputs_nodup_of_assemble hload ha

namespace Sample

/-- A target called like the package below its own one, and a root with slashes at its end. -/
def nested : Descriptor :=
  { genroot := some "out/gen//"
    environments := SortedMap.ofList
      [("host", SortedMap.ofList [("objcopy", "oc"), ("tar", "/bin/tar")])]
    packages := SortedMap.ofList
      [("fw", [declaration "objcopy" "app" [("src", .string "app.elf")],
          declaration "bundle" "all.tar"
            [("srcs", .sequence [.string ":app", .string "//fw/app:app"])]]),
        ("fw/app", [declaration "objcopy" "app" [("src", .string "//fw:app")]])] }

end Sample

theorem outputPaths_sample : ∃ project targets rules a,
    Sample.nested.load .withBundle = .ok ⟨project, targets⟩ ∧ Sample.bothRules = .ok rules ∧
    assemble project rules targets = .ok a ∧
    a.edges.flatMap Edge.outputs =
      ["out/gen/fw/app", "out/gen/fw/app/app", "out/gen/fw/all.tar"] ∧
    OutputPaths project ∧ (a.edges.flatMap Edge.outputs).Nodup := by
  have hruns : ((Sample.nested.load .withBundle).toOption.bind fun loaded =>
      Sample.bothRules.toOption.bind fun rules =>
        (assemble loaded.project rules loaded.targets).toOption.map fun a =>
          a.edges.flatMap Edge.outputs) =
      some ["out/gen/fw/app", "out/gen/fw/app/app", "out/gen/fw/all.tar"] := by decide
  obtain ⟨⟨project, targets⟩, hload, hruns⟩ := Option.bind_eq_some_iff.mp hruns
  obtain ⟨rules, hrules, hruns⟩ := Option.bind_eq_some_iff.mp hruns
  obtain ⟨a, ha, hpaths⟩ := Option.map_eq_some_iff.mp hruns
  replace hload := eq_ok_of_toOption hload
  replace ha := eq_ok_of_toOption ha
  exact ⟨project, targets, rules, a, hload, eq_ok_of_toOption hrules, ha, hpaths,
    outputPaths project, (outputPaths project).apart _ _ _ _ hload ha⟩

end BuildGraph
