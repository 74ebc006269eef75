import BuildGraph.Proofs.Contributions
import BuildGraph.Proofs.Wiring

/-!
# Files in order

A build file names files, not targets. The dependencies that order its edges are labels among the
sources of steps, and every output that an edge reads on account of one is made by an edge before it
(`ordered_of_assemble`). A source that is not a label is a file of the source tree, and no path is
compared with the outputs of the build. So a step may name as such a file what another step makes, and
its edge may stand before the edge that makes it (`not_filesOrdered`).
-/

namespace BuildGraph

open Relation

/-! ## Files and edges -/

/-- The edge reads the file or waits for it. -/
def Edge.Needs (edge : Edge) (path : String) : Prop := path ∈ edge.inputs ∨ path ∈ edge.implicit

/-- One file is made by an edge that needs the other. -/
def MadeFrom (edges : List Edge) (path source : String) : Prop :=
  ∃ edge ∈ edges, path ∈ edge.outputs ∧ edge.Needs source

/-- Whichever edge makes a file stands before every edge that needs it. -/
def MadeBefore (edges : List Edge) : Prop :=
  ∀ (i j : Nat) (e f : Edge) (path : String), edges[i]? = some e → edges[j]? = some f →
    e.Needs path → path ∈ f.outputs → j < i

/-- Edges in an order in which files are made before they are needed. -/
structure FilesOrdered (edges : List Edge) : Prop where
  before : MadeBefore edges
  /-- No edge needs what it makes. -/
  own : ∀ e ∈ edges, ∀ path ∈ e.outputs, ¬ e.Needs path
  /-- No file is made from itself. -/
  acyclic : ∀ path, ¬ TransGen (MadeFrom edges) path path

namespace MadeBefore

variable {edges : List Edge}

/-- A file that is made from another one is made by an edge after all those that make the other. -/
theorem exists_after (h : MadeBefore edges) {path source : String}
    (hpath : TransGen (MadeFrom edges) path source) :
    ∃ (i : Nat) (e : Edge), edges[i]? = some e ∧ path ∈ e.outputs ∧
      ∀ (j : Nat) (f : Edge), edges[j]? = some f → source ∈ f.outputs → j < i := by
  induction hpath using TransGen.head_induction_on with
  | single hstep =>
    obtain ⟨e, he, hmakes, hneeds⟩ := hstep
    obtain ⟨i, hi⟩ := List.getElem?_of_mem he
    exact ⟨i, e, hi, hmakes, fun j f hj hsource => h i j e f source hi hj hneeds hsource⟩
  | @head path middle hstep _ ih =>
    obtain ⟨e, he, hmakes, hneeds⟩ := hstep
    obtain ⟨i, hi⟩ := List.getElem?_of_mem he
    obtain ⟨k, g, hk, hmiddle, hafter⟩ := ih
    refine ⟨i, e, hi, hmakes, fun j f hj hsource => ?_⟩
    have hki : k < i := h i k e g middle hi hk hneeds hmiddle
    have hjk : j < k := hafter j f hj hsource
    omega

/-- So no file is made from itself. -/
theorem filesOrdered (h : MadeBefore edges) : FilesOrdered edges where
  before := h
  own e he path hpath hneeds := by
    obtain ⟨i, hi⟩ := List.getElem?_of_mem he
    have hlt : i < i := h i i e e path hi hi hneeds hpath
    omega
  acyclic path hcycle := by
    obtain ⟨i, e, hi, hmakes, hafter⟩ := h.exists_after hcycle
    have hlt : i < i := hafter i e hi hmakes
    omega

end MadeBefore

/-! ## Assembled descriptors -/

/-- The edges of an assembled descriptor and the steps in `made`, whose edges they are. -/
structure Ordered (loaded : Loaded) (a : Assembly) (steps made : List Step) : Prop where
  perm : made.Perm steps
  edges : List.Forall₂ (Wired loaded) made a.edges
  /-- The edge of a step stands after any edge that makes a file that it needs, unless the step names
  the file as one of the source tree and does not depend on the step that makes it. -/
  before : ∀ (i j : Nat) (e f : Edge) (step other : Step) (path : String),
    a.edges[i]? = some e → made[i]? = some step → a.edges[j]? = some f → made[j]? = some other →
    e.Needs path → path ∈ f.outputs →
    (.source path ∈ step.sources → TransGen (DependsOn loaded.targets) step.label other.label) →
    j < i
  /-- If there are no such steps, all files are made before they are needed. -/
  files : (∀ step ∈ steps, ∀ other ∈ steps,
      .source (loaded.project.outputPath other.label) ∈ step.sources →
      TransGen (DependsOn loaded.targets) step.label other.label) →
    FilesOrdered a.edges

theorem exists_getElem?_of_forall₂ {α β : Type} {R : α → β → Prop} {xs : List α} {ys : List β}
    (h : List.Forall₂ R xs ys) {i : Nat} {y : β} (hy : ys[i]? = some y) :
    ∃ x, xs[i]? = some x ∧ R x y := by
  induction h generalizing i with
  | nil => simp at hy
  | @cons x y' xs ys hxy _ ih =>
    cases i with
    | zero =>
      obtain rfl : y' = y := by simpa using hy
      exact ⟨x, rfl, hxy⟩
    | succ i => exact ih (by simpa using hy)

variable {descriptor : Descriptor} {loaded : Loaded} {steps made : List Step} {rules : RuleTable}
variable {a : Assembly}

/-- Steps in an order in which each stands after those that it depends on order their edges. -/
theorem ordered_of_preceded (hperm : made.Perm steps)
    (hedges : List.Forall₂ (Wired loaded) made a.edges)
    (hpreceded : Preceded (DependsOn loaded.targets) (made.map Step.label))
    (hnd : (made.map Step.label).Nodup) : Ordered loaded a steps made := by
  have hbefore : ∀ (i j : Nat) (e f : Edge) (step other : Step) (path : String),
      a.edges[i]? = some e → made[i]? = some step → a.edges[j]? = some f →
      made[j]? = some other → e.Needs path → path ∈ f.outputs →
      (.source path ∈ step.sources →
        TransGen (DependsOn loaded.targets) step.label other.label) → j < i := by
    intro i j e f step other path hi hstep hj hother hneeds hpath hsource
    obtain ⟨step', hstep', hwired⟩ := exists_getElem?_of_forall₂ hedges hi
    obtain rfl := Option.some.inj (hstep.symm.trans hstep')
    obtain ⟨other', hother', hwired'⟩ := exists_getElem?_of_forall₂ hedges hj
    obtain rfl := Option.some.inj (hother.symm.trans hother')
    have hmakes : path = loaded.project.outputPath other.label := by
      rw [hwired'.outputs] at hpath
      exact List.mem_singleton.mp hpath
    -- it is a source file of the step or the output of something that the step depends on
    have hdep : TransGen (DependsOn loaded.targets) step.label other.label := by
      rcases (hwired.files path).mp hneeds with hnamed | ⟨d, hd, hpathd⟩
      · exact hsource hnamed
      · obtain rfl := loaded.project.outputPath_injective (hpathd.symm.trans hmakes)
        exact hd
    refine hpreceded.transGen.lt_of_needs hnd ?_ ?_ hdep
    · rw [List.getElem?_map, hstep, Option.map_some]
    · rw [List.getElem?_map, hother, Option.map_some]
  refine ⟨hperm, hedges, hbefore, fun hnames => MadeBefore.filesOrdered ?_⟩
  intro i j e f path hi hj hneeds hpath
  obtain ⟨step, hstep, -⟩ := exists_getElem?_of_forall₂ hedges hi
  obtain ⟨other, hother, hwired⟩ := exists_getElem?_of_forall₂ hedges hj
  refine hbefore i j e f step other path hi hstep hj hother hneeds hpath fun hsource => ?_
  rw [hwired.outputs, List.mem_singleton] at hpath
  subst hpath
  exact hnames step (hperm.mem_iff.mp (List.mem_of_getElem? hstep)) other
    (hperm.mem_iff.mp (List.mem_of_getElem? hother)) hsource

/-- Assembling with success a descriptor that is loaded with the built-in verbs and `bundle`. -/
theorem ordered_of_assemble (h : descriptor.load .withBundle = .ok loaded)
    (ha : assemble loaded.project rules loaded.targets = .ok a) (hsuccess : a.isSuccess = true) :
    ∃ steps made, Declares descriptor loaded steps ∧ Ordered loaded a steps made := by
  obtain ⟨steps, hdeclares⟩ := declares_of_load h
  have hacyclic := (exists_assemble_iff hdeclares.distinct).mp ⟨a, ha⟩
  obtain ⟨visits, hschedule, ha'⟩ := exists_schedule hdeclares.distinct ha
  obtain ⟨order, rfl, hperm⟩ := hdeclares.exists_order hschedule
  have hsettled : Settled loaded.project rules loaded.targets a := ha' ▸ hschedule.settled
  have hall : ∀ step ∈ order, a.lowered.contains step.label = true := by
    intro step hstep
    rw [← step.target_label]
    exact hsettled.lowered_of_isSuccess hsuccess
      (hdeclares.mem_targets (hperm.mem_iff.mp hstep))
  have hkept : (order.filter fun step => a.lowered.contains step.label) = order :=
    List.filter_eq_self.mpr hall
  have hedges := hdeclares.forall₂_wired hacyclic hperm hschedule ha'
  rw [hkept] at hedges
  have hlabels : (order.map Step.target).map Target.label = order.map Step.label := by
    rw [List.map_map]
    exact List.map_congr_left fun step _ => step.target_label
  have hpreceded := hschedule.preceded_lowered hsettled
  rw [List.filter_eq_self.mpr (by simpa [Step.target_label] using hall), hlabels] at hpreceded
  have hnd := hschedule.nodup
  rw [hlabels] at hnd
  exact ⟨steps, order, hdeclares, ordered_of_preceded hperm hedges hpreceded hnd⟩

theorem ordered_sample : ∃ loaded rules a,
    Sample.diamond.load .withBundle = .ok loaded ∧ Sample.bothRules = .ok rules ∧
    assemble loaded.project rules loaded.targets = .ok a ∧ a.isSuccess = true ∧
    ∃ steps made, Declares Sample.diamond loaded steps ∧ Ordered loaded a steps made := by
  have hruns : ((Sample.diamond.load .withBundle).toOption.bind fun loaded =>
      Sample.bothRules.toOption.bind fun rules =>
        (assemble loaded.project rules loaded.targets).toOption.map Assembly.isSuccess) =
      some true := by decide
  obtain ⟨loaded, hload, hruns⟩ := Option.bind_eq_some_iff.mp hruns
  obtain ⟨rules, hrules, hruns⟩ := Option.bind_eq_some_iff.mp hruns
  obtain ⟨a, ha, hsuccess⟩ := Option.map_eq_some_iff.mp hruns
  replace hload := eq_ok_of_toOption hload
  replace ha := eq_ok_of_toOption ha
  exact ⟨loaded, rules, a, hload, eq_ok_of_toOption hrules, ha, hsuccess,
    ordered_of_assemble hload ha hsuccess⟩

namespace Sample

/-- A run over a file that is named by its path and made by another run. -/
def named : Descriptor :=
  { environments := SortedMap.ofList [("host", SortedMap.ofList [("objcopy", "oc")])]
    packages := SortedMap.ofList [("fw",
      [declaration "objcopy" "base" [("src", .string "base.elf")],
        declaration "objcopy" "signed" [("src", .string "gen/fw/base")]])] }

end Sample

/-- The edge that needs the file comes first. -/
theorem not_filesOrdered : ∃ loaded rules a,
    Sample.named.load .withBundle = .ok loaded ∧ RuleTable.standard = .ok rules ∧
    assemble loaded.project rules loaded.targets = .ok a ∧ a.isSuccess = true ∧
    ¬ FilesOrdered a.edges := by
  have hruns : ((Sample.named.load .withBundle).toOption.bind fun loaded =>
      RuleTable.standard.toOption.bind fun rules =>
        (assemble loaded.project rules loaded.targets).toOption.map fun a =>
          (a.isSuccess, a.edges.map fun edge => (edge.inputs, edge.outputs))) =
      some (true, [(["gen/fw/base"], ["gen/fw/signed"]), (["base.elf"], ["gen/fw/base"])]) := by
    decide
  obtain ⟨loaded, hload, hruns⟩ := Option.bind_eq_some_iff.mp hruns
  obtain ⟨rules, hrules, hruns⟩ := Option.bind_eq_some_iff.mp hruns
  obtain ⟨a, ha, hruns⟩ := Option.map_eq_some_iff.mp hruns
  obtain ⟨hsuccess, hedges⟩ := Prod.mk.inj hruns
  refine ⟨loaded, rules, a, eq_ok_of_toOption hload, eq_ok_of_toOption hrules,
    eq_ok_of_toOption ha, hsuccess, fun hordered => ?_⟩
  obtain ⟨signed, others, hsplit, hsigned, hothers⟩ := List.map_eq_cons_iff.mp hedges
  obtain ⟨base, others, rfl, hbase, -⟩ := List.map_eq_cons_iff.mp hothers
  have hneeds : signed.Needs "gen/fw/base" := .inl (by simp [(Prod.mk.inj hsigned).1])
  have hmakes : "gen/fw/base" ∈ base.outputs := by simp [(Prod.mk.inj hbase).2]
  have hlt := hordered.before 0 1 signed base _ (by rw [hsplit]; rfl) (by rw [hsplit]; rfl)
    hneeds hmakes
  omega

end BuildGraph
