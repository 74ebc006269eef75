import BuildGraph.Proofs.OutputPaths

/-!
# Outputs that can be there together

A path can be that of a file or that of a directory, not both. The output of a target lies in the
directory of its package, and packages lie in each other, so the output of one target may be asked
for where another needs a directory (`not_coexist`). Label texts and output paths differ all the
same: what the two targets have in common is the beginning of their paths.

Main statement: this is so exactly for a target of an outer package that is called like the next
segment of an inner one (`coexistence_of_assemble`). Seen by their segments, one path lies below
another if it begins with the other and goes on.
-/

namespace BuildGraph

/-! ## Paths below each other -/

/-- What is found between separators holds none. -/
theorem sep_notMem_of_mem_splitOn {x : Char} {cs part : List Char} (h : part ∈ cs.splitOn x) :
    x ∉ part := by
  induction cs generalizing part with
  | nil => simp_all
  | cons c cs ih =>
    rw [List.splitOn_cons_eq_if_modifyHead] at h
    by_cases hc : c = x
    · rw [if_pos (by simp [hc])] at h
      rcases List.mem_cons.mp h with rfl | h
      · exact List.not_mem_nil
      · exact ih h
    · rw [if_neg (by simp [hc])] at h
      obtain ⟨first, rest, hparts⟩ := List.exists_cons_of_ne_nil (List.splitOn_ne_nil x cs)
      rw [hparts] at h ih
      rcases List.mem_cons.mp h with rfl | h
      · rw [List.mem_cons, not_or]
        exact ⟨fun hxc => hc hxc.symm, ih List.mem_cons_self⟩
      · exact ih (List.mem_cons_of_mem _ h)

/-- What lies below a path begins with its segments and has more of them. -/
theorem append_sep_isPrefix_iff {x : Char} {cs ds : List Char} :
    cs ++ [x] <+: ds ↔ ∃ rest, rest ≠ [] ∧ ds.splitOn x = cs.splitOn x ++ rest := by
  constructor
  · rintro ⟨rest, rfl⟩
    refine ⟨rest.splitOn x, List.splitOn_ne_nil x rest, ?_⟩
    rw [List.append_assoc, List.singleton_append, List.splitOn_append_cons_self]
  · rintro ⟨rest, hrest, hsplit⟩
    have hparts : ([x].intercalate rest).splitOn x = rest :=
      List.splitOn_intercalate x (fun part hpart => sep_notMem_of_mem_splitOn <| by
        rw [hsplit]
        exact List.mem_append_right _ hpart) hrest
    refine ⟨[x].intercalate rest, ?_⟩
    calc cs ++ [x] ++ [x].intercalate rest
        = [x].intercalate ((cs ++ x :: [x].intercalate rest).splitOn x) := by
          rw [List.intercalate_splitOn, List.append_assoc, List.singleton_append]
      _ = [x].intercalate (ds.splitOn x) := by
          rw [List.splitOn_append_cons_self, hparts, hsplit]
      _ = ds := List.intercalate_splitOn x

namespace Label

/-- The output of `a` stands where the package of `b`, or a package around it, has its directory. -/
def Blocks (a b : Label) : Prop := a.package.segments ++ [a.name.toList] <+: b.package.segments

instance : DecidableRel Blocks := fun a b =>
  inferInstanceAs (Decidable (a.package.segments ++ [a.name.toList] <+: b.package.segments))

/-- Only a package that lies inside another one can be blocked from there. -/
theorem Blocks.isPrefix {a b : Label} (h : a.Blocks b) :
    a.package.segments <+: b.package.segments ∧ a.package ≠ b.package := by
  refine ⟨(List.prefix_append _ _).trans h, fun heq => ?_⟩
  have hlength := h.length_le
  rw [heq, List.length_append, List.length_singleton] at hlength
  omega

end Label

/-- The output of one target lies below that of another exactly if the other blocks its package. -/
theorem Project.outputPath_below_iff (project : Project) (a b : Label) :
    (project.outputPath a).toList ++ ['/'] <+: (project.outputPath b).toList ↔ a.Blocks b := by
  rw [append_sep_isPrefix_iff, splitOn_outputPath, splitOn_outputPath]
  simp only [List.append_assoc, List.append_cancel_left_eq]
  constructor
  · rintro ⟨rest, hrest, heq⟩
    -- the last segment is the name of `b`, the others are those of its package
    obtain ⟨between, name, rfl⟩ := List.eq_nil_or_concat rest |>.resolve_left hrest
    rw [List.concat_eq_append, ← List.append_assoc, ← List.append_assoc] at heq
    obtain ⟨hpackage, -⟩ := List.append_inj' heq rfl
    exact ⟨between, by rw [hpackage, List.append_assoc]⟩
  · rintro ⟨between, hpackage⟩
    refine ⟨between ++ [b.name.toList], by simp, ?_⟩
    rw [← hpackage]
    simp

/-! ## Assemblies -/

/-- No output of an edge lies where another one needs a directory. -/
def Assembly.Coexist (a : Assembly) : Prop :=
  ∀ e ∈ a.edges, ∀ f ∈ a.edges, ∀ path ∈ e.outputs, ∀ other ∈ f.outputs,
    ¬ path.toList ++ ['/'] <+: other.toList

/-- Which outputs of an assembly can be there together. -/
structure Coexistence (project : Project) (a : Assembly) : Prop where
  /-- There is one output for each lowered target. -/
  outputs : ∀ path, path ∈ a.edges.flatMap Edge.outputs ↔
    ∃ l, a.lowered.contains l = true ∧ path = project.outputPath l
  below_iff : ∀ l d, (project.outputPath l).toList ++ ['/'] <+: (project.outputPath d).toList ↔
    l.Blocks d
  coexist_iff : a.Coexist ↔ ∀ l d, a.lowered.contains l = true → a.lowered.contains d = true →
    ¬ l.Blocks d
  /-- So they can if no package with lowered targets lies inside another one. -/
  flat : (∀ l d, a.lowered.contains l = true → a.lowered.contains d = true →
    l.package.segments <+: d.package.segments → l.package = d.package) → a.Coexist

theorem Assembly.coexist_iff {project : Project} {a : Assembly}
    (h : ∀ path, path ∈ a.edges.flatMap Edge.outputs ↔
      ∃ l, a.lowered.contains l = true ∧ path = project.outputPath l) :
    a.Coexist ↔ ∀ l d, a.lowered.contains l = true → a.lowered.contains d = true →
      ¬ l.Blocks d := by
  constructor
  · intro hcoexist l d hl hd hblocks
    obtain ⟨e, he, hpath⟩ := List.mem_flatMap.mp ((h _).mpr ⟨l, hl, rfl⟩)
    obtain ⟨f, hf, hother⟩ := List.mem_flatMap.mp ((h _).mpr ⟨d, hd, rfl⟩)
    exact hcoexist e he f hf _ hpath _ hother ((project.outputPath_below_iff l d).mpr hblocks)
  · intro hfree e he f hf path hpath other hother hbelow
    obtain ⟨l, hl, rfl⟩ := (h path).mp (List.mem_flatMap.mpr ⟨e, he, hpath⟩)
    obtain ⟨d, hd, rfl⟩ := (h other).mp (List.mem_flatMap.mpr ⟨f, hf, hother⟩)
    exact hfree l d hl hd ((project.outputPath_below_iff l d).mp hbelow)

/-- Assembling a descriptor that is loaded with the built-in verbs and `bundle`. -/
theorem coexistence_of_assemble {descriptor : Descriptor} {loaded : Loaded} {rules : RuleTable}
    {a : Assembly} (h : descriptor.load .withBundle = .ok loaded)
    (ha : assemble loaded.project rules loaded.targets = .ok a) :
    Coexistence loaded.project a := by
  have houtputs : ∀ path, path ∈ a.edges.flatMap Edge.outputs ↔
      ∃ l, a.lowered.contains l = true ∧ path = loaded.project.outputPath l :=
    fun path => mem_outputs_of_assemble h ha
  exact {
    outputs := houtputs
    below_iff := loaded.project.outputPath_below_iff
    coexist_iff := Assembly.coexist_iff houtputs
    flat := fun hflat => (Assembly.coexist_iff houtputs).mpr fun l d hl hd hblocks =>
      hblocks.isPrefix.2 (hflat l d hl hd hblocks.isPrefix.1) }

theorem coexistence_sample : ∃ loaded rules a,
    Sample.diamond.load .withBundle = .ok loaded ∧ Sample.bothRules = .ok rules ∧
    assemble loaded.project rules loaded.targets = .ok a ∧ a.lowered.keys.length = 4 ∧
    Coexistence loaded.project a ∧ a.Coexist := by
  let fw : PackagePath := ⟨"fw", by decide⟩
  have hruns : ((Sample.diamond.load .withBundle).toOption.bind fun loaded =>
      Sample.bothRules.toOption.bind fun rules =>
        (assemble loaded.project rules loaded.targets).toOption.map fun a =>
          a.lowered.keys.map Label.package) = some (List.replicate 4 fw) := by decide
  obtain ⟨loaded, hload, hruns⟩ := Option.bind_eq_some_iff.mp hruns
  obtain ⟨rules, hrules, hruns⟩ := Option.bind_eq_some_iff.mp hruns
  obtain ⟨a, ha, hpackages⟩ := Option.map_eq_some_iff.mp hruns
  replace hload := eq_ok_of_toOption hload
  replace ha := eq_ok_of_toOption ha
  have hcoexistence := coexistence_of_assemble hload ha
  have hlength : a.lowered.keys.length = 4 := by
    rw [← List.length_map (f := Label.package), hpackages, List.length_replicate]
  -- all of them are in one package
  have hone : ∀ l, a.lowered.contains l = true → l.package = fw := fun l hl =>
    List.eq_of_mem_replicate (hpackages ▸ List.mem_map_of_mem (SortedMap.mem_keys.mpr hl))
  exact ⟨loaded, rules, a, hload, eq_ok_of_toOption hrules, ha, hlength, hcoexistence,
    hcoexistence.flat fun l d hl hd _ => (hone l hl).trans (hone d hd).symm⟩

namespace Sample

/-- A target that is called like the package inside its own one. -/
def crowded : Descriptor :=
  { environments := SortedMap.ofList [("host", SortedMap.ofList [("objcopy", "oc")])]
    packages := SortedMap.ofList
      [("fw", [declaration "objcopy" "app" [("src", .string "app.elf")]]),
        ("fw/app", [declaration "objcopy" "image" [("src", .string "image.elf")]])] }

end Sample

/-- A file is to be made where another one needs its directory. -/
theorem not_coexist : ∃ loaded rules a,
    Sample.crowded.load .withBundle = .ok loaded ∧ RuleTable.standard = .ok rules ∧
    assemble loaded.project rules loaded.targets = .ok a ∧ a.isSuccess = true ∧
    ¬ a.Coexist := by
  have hruns : ((Sample.crowded.load .withBundle).toOption.bind fun loaded =>
      RuleTable.standard.toOption.bind fun rules =>
        (assemble loaded.project rules loaded.targets).toOption.map fun a =>
          (a.isSuccess, a.edges.map Edge.outputs)) =
      some (true, [["gen/fw/app/image"], ["gen/fw/app"]]) := by decide
  obtain ⟨loaded, hload, hruns⟩ := Option.bind_eq_some_iff.mp hruns
  obtain ⟨rules, hrules, hruns⟩ := Option.bind_eq_some_iff.mp hruns
  obtain ⟨a, ha, hruns⟩ := Option.map_eq_some_iff.mp hruns
  obtain ⟨hsuccess, hedges⟩ := Prod.mk.inj hruns
  refine ⟨loaded, rules, a, eq_ok_of_toOption hload, eq_ok_of_toOption hrules,
    eq_ok_of_toOption ha, hsuccess, fun hcoexist => ?_⟩
  obtain ⟨inner, hinner, himage⟩ := List.mem_map.mp (hedges ▸ List.mem_cons_self)
  obtain ⟨outer, houter, happ⟩ :=
    List.mem_map.mp (hedges ▸ List.mem_cons_of_mem _ List.mem_cons_self)
  exact hcoexist outer houter inner hinner "gen/fw/app" (by simp [happ]) "gen/fw/app/image"
    (by simp [himage]) (by decide)

end BuildGraph
