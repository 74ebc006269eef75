import BuildGraph.Proofs.Blocks
import BuildGraph.Proofs.Steps

/-!
# How steps are wired

With the built-in verbs and `bundle`, every lowered step has one edge. The edge is given the step's
sources and waits for the outputs of everything else that the step depends on, near or far
(`assemble_withBundle`). What it inherits is the same in labels, each after those that it needs.

An edge is made when its step is visited. The labels that the step inherits are those of steps
visited before, so each is read back as a label and stands for the one path that its step writes.
-/

namespace BuildGraph

open Relation

/-- The edge of a step among everything that is declared. -/
structure Wired (loaded : Loaded) (step : Step) (edge : Edge) : Prop where
  inputs : edge.inputs = step.sources.map loaded.project.inputPath
  outputs : edge.outputs = [loaded.project.outputPath step.label]
  /-- The files that the edge needs are the source files of the step and the outputs of what it
  depends on. -/
  files : ∀ path, path ∈ edge.inputs ∨ path ∈ edge.implicit ↔ .source path ∈ step.sources ∨
    ∃ d, TransGen (DependsOn loaded.targets) step.label d ∧ path = loaded.project.outputPath d
  nodup : edge.implicit.Nodup
  disjoint : ∀ path ∈ edge.implicit, path ∉ edge.inputs
  own : loaded.project.outputPath step.label ∉ edge.implicit

variable {descriptor : Descriptor} {loaded : Loaded} {steps : List Step} {step : Step}
variable {rules : RuleTable} {a c : Assembly} {visits done rest : List Target}

/-! ## Files waited for -/

theorem expand_text {l : Label} {x : Lowering} (h : a.lowered.get? l = some x) :
    a.expand l.text = x.outputs := by
  rw [Assembly.expand, Label.parse_text]
  simp only [h]

/-- Announced labels of lowered targets with one output each stand for these outputs. -/
theorem implicitPaths_eq {project : Project} {labels : List Label} (hnd : labels.Nodup)
    (h : ∀ d ∈ labels, ∃ x, a.lowered.get? d = some x ∧ x.outputs = [project.outputPath d]) :
    a.implicitPaths (Delta.announcing labels).bindings = labels.map project.outputPath := by
  have hexpand : (labels.map Label.text).flatMap a.expand = labels.map project.outputPath := by
    rw [List.flatMap_map, ← List.flatMap_singleton' (labels.map project.outputPath),
      List.flatMap_map]
    refine List.flatMap_congr fun d hd => ?_
    obtain ⟨x, hx, houtputs⟩ := h d hd
    rw [expand_text hx, houtputs]
  have hpaths : (labels.map project.outputPath).Nodup :=
    hnd.map fun _ _ => project.outputPath_injective
  rw [Assembly.implicitPaths, Delta.list_bindings_announcing hnd, hexpand,
    firstOccurrences_eq_self hpaths]

/-! ## Edges of steps -/

/-- A lowered step has its one output. -/
theorem Declares.outputs_of_lowered (h : Declares descriptor loaded steps)
    (hsettled : Settled loaded.project rules loaded.targets a) {l : Label} {x : Lowering}
    (hx : a.lowered.get? l = some x) : x.outputs = [loaded.project.outputPath l] := by
  have hlowered := SortedMap.contains_of_get? hx
  obtain ⟨t, ht, rfl⟩ := List.mem_map.mp (hsettled.mem_labels_of_lowered hlowered)
  obtain ⟨step, hstep, rfl⟩ := h.exists_step ht
  obtain ⟨edges, -, -, hattempt⟩ := hsettled.attempt_of_lowered ht hx
  obtain ⟨environment, after, products, hres, hp, -, hedges, -, -, -, houtputs⟩ :=
    Assembly.attempt_eq_ok hattempt
  obtain ⟨tool, -, rfl⟩ := step.products_of_resolve hres hp
  rw [houtputs, hedges]
  simp [Edge.waitFor_outputs, Step.edge_outputs, step.target_label, h.project_eq hstep]

/-- The edges that the visit of a step adds: none if the step is not lowered in the end, and
otherwise one, which waits for the output of everything that the step depends on. -/
theorem block_of_step (h : Declares descriptor loaded steps)
    (hschedule : Schedule loaded.targets (done ++ step.target :: rest))
    (hc : c = run loaded.project rules (unknownDependencies loaded.targets) done)
    (ha : a = run loaded.project rules (unknownDependencies loaded.targets)
      (done ++ step.target :: rest)) :
    (a.lowered.contains step.label = false ∧
      c.block loaded.project rules step.target = []) ∨
    (a.lowered.contains step.label = true ∧ ∃ tool labels,
      c.block loaded.project rules step.target =
        [(step.edge tool).waitFor (labels.map loaded.project.outputPath)] ∧
      Enumerates (DependsOn loaded.targets) (TransGen (DependsOn loaded.targets) step.label)
        labels) := by
  have ht : step.target ∈ loaded.targets := hschedule.perm.mem_iff.mp (by simp)
  have hsettled : Settled loaded.project rules loaded.targets a := ha ▸ hschedule.settled
  rcases hschedule.block_cases loaded.project rules hc ha with
    ⟨hnone, hblock⟩ | ⟨x, edges, hx, hblock, hattempt⟩
  · rw [step.target_label] at hnone
    exact .inl ⟨SortedMap.contains_eq_false.mpr hnone, hblock⟩
  · have hlowered := SortedMap.contains_of_get? hx
    obtain ⟨labels, hinherited, henum⟩ :=
      hsettled.inherited_eq hschedule (h.announces _) ht hx
    -- what the step depends on was visited before, so it is lowered by now if it ever is
    have hpaths : ∀ d ∈ labels, ∃ y, c.lowered.get? d = some y ∧
        y.outputs = [loaded.project.outputPath d] := by
      intro d hd
      have hdep := (henum.mem_iff d).mp hd
      have hdlowered := hsettled.lowered_of_transGen hdep hlowered
      have hdmem := hsettled.mem_labels_of_lowered hdlowered
      obtain ⟨y, hy⟩ := SortedMap.contains_eq_true.mp hdlowered
      have hentry := hschedule.entry_prefix loaded.project rules
        (unknownDependencies loaded.targets) (hschedule.mem_done_of_transGen hdep hdmem)
      rw [← hc, ← ha] at hentry
      exact ⟨y, (congrArg Entry.lowering hentry).trans hy, h.outputs_of_lowered hsettled hy⟩
    obtain ⟨environment, after, products, hres, hp, -, hedges, -⟩ :=
      Assembly.attempt_eq_ok hattempt
    obtain ⟨tool, -, rfl⟩ := step.products_of_resolve hres hp
    rw [step.target_label] at hlowered henum
    refine .inr ⟨hlowered, tool, labels, ?_, henum⟩
    rw [hblock, hedges, hinherited, implicitPaths_eq henum.nodup hpaths]
    rfl

/-- Waiting for the outputs of all that a step depends on wires its edge. -/
theorem wired_waitFor (hproject : step.project = loaded.project)
    (ht : step.target ∈ loaded.targets)
    (hacyclic : ∀ l, ¬ TransGen (DependsOn loaded.targets) l l) {labels : List Label}
    (henum : Enumerates (DependsOn loaded.targets)
      (TransGen (DependsOn loaded.targets) step.label) labels) (tool : String) :
    Wired loaded step ((step.edge tool).waitFor (labels.map loaded.project.outputPath)) := by
  have hinputs : ((step.edge tool).waitFor (labels.map loaded.project.outputPath)).inputs =
      step.sources.map loaded.project.inputPath := by
    rw [Edge.waitFor_inputs, step.edge_inputs, hproject]
  have himplicit : ∀ path,
      path ∈ ((step.edge tool).waitFor (labels.map loaded.project.outputPath)).implicit ↔
      path ∈ labels.map loaded.project.outputPath ∧
        path ∉ step.sources.map loaded.project.inputPath := by
    intro path
    rw [Edge.mem_waitFor_implicit, step.edge_implicit, step.edge_inputs, hproject]
    simp
  exact {
    inputs := hinputs
    outputs := by rw [Edge.waitFor_outputs, step.edge_outputs, hproject]
    files := by
      intro path
      rw [hinputs, himplicit]
      constructor
      · rintro (hin | ⟨hmem, -⟩)
        · obtain ⟨source, hsource, rfl⟩ := List.mem_map.mp hin
          cases source with
          | source path => exact .inl hsource
          | output d => exact .inr ⟨d, .single (Step.dependsOn_of_source ht hsource), rfl⟩
        · obtain ⟨d, hd, rfl⟩ := List.mem_map.mp hmem
          exact .inr ⟨d, (henum.mem_iff d).mp hd, rfl⟩
      · rintro (hsource | ⟨d, hd, rfl⟩)
        · exact .inl (List.mem_map_of_mem hsource)
        · by_cases hin : loaded.project.outputPath d ∈ step.sources.map loaded.project.inputPath
          · exact .inl hin
          · exact .inr ⟨List.mem_map_of_mem ((henum.mem_iff d).mpr hd), hin⟩
    nodup := by
      rw [Edge.waitFor_implicit, step.edge_implicit]
      exact nodup_firstOccurrences _
    disjoint := by
      intro path hpath
      rw [hinputs]
      exact ((himplicit path).mp hpath).2
    own := by
      intro hown
      obtain ⟨d, hd, hpath⟩ := List.mem_map.mp ((himplicit _).mp hown).1
      obtain rfl := loaded.project.outputPath_injective hpath
      exact hacyclic _ ((henum.mem_iff _).mp hd)
  }

/-! ## Descriptors -/

/-- Blocks of at most one element, and the things that have one. -/
theorem forall₂_filter_flatten {α β : Type} {p : α → Bool} {R : α → β → Prop} {xs : List α}
    {bs : List (List β)} (h : List.Forall₂ (fun x b =>
      (p x = false ∧ b = []) ∨ (p x = true ∧ ∃ y, b = [y] ∧ R x y)) xs bs) :
    List.Forall₂ R (xs.filter p) bs.flatten := by
  obtain ⟨kept, hkept, hflatten⟩ := exists_forall₂_filter h
  rw [← hflatten]
  clear hflatten
  generalize xs.filter p = items at hkept ⊢
  induction hkept with
  | nil => exact .nil
  | cons hxb _ ih =>
    obtain ⟨y, rfl, hy⟩ := hxb
    exact .cons hy ih

/-- Visiting declared steps is visiting them in some order. -/
theorem Declares.exists_order (h : Declares descriptor loaded steps)
    (hschedule : Schedule loaded.targets visits) :
    ∃ order : List Step, visits = order.map Step.target ∧ order.Perm steps := by
  have hperm := hschedule.perm
  rw [h.targets] at hperm
  have hcomp := congrFun (congrFun (List.eq_map_comp_perm Step.target) visits) steps
  exact hcomp.mpr hperm

/-- The edges are those of the lowered steps, in the order of their visits. -/
theorem Declares.forall₂_wired (h : Declares descriptor loaded steps)
    (hacyclic : ∀ l, ¬ TransGen (DependsOn loaded.targets) l l) {order : List Step}
    (hperm : order.Perm steps) (hschedule : Schedule loaded.targets (order.map Step.target))
    (ha : a = run loaded.project rules (unknownDependencies loaded.targets)
      (order.map Step.target)) :
    List.Forall₂ (Wired loaded) (order.filter fun step => a.lowered.contains step.label)
      a.edges := by
  have hedges : a.edges = (blocks loaded.project rules (unknownDependencies loaded.targets)
      (order.map Step.target)).flatten := by
    rw [ha, edges_run, edges_unknownDependencies, List.nil_append]
  rw [hedges]
  refine forall₂_filter_flatten ?_
  have hblocks : List.Forall₂ (fun t block => ∀ step : Step, step.target = t →
      step.project = loaded.project →
      (a.lowered.contains step.label = false ∧ block = []) ∨
      (a.lowered.contains step.label = true ∧ ∃ edge, block = [edge] ∧ Wired loaded step edge))
      (order.map Step.target) (blocks loaded.project rules (unknownDependencies loaded.targets)
        (order.map Step.target)) := by
    refine forall₂_blocks _ _ ?_
    rintro done t rest hsplit step rfl hproject
    rw [hsplit] at hschedule ha
    rcases block_of_step h hschedule rfl ha with
      hnone | ⟨hlowered, tool, labels, hblock, henum⟩
    · exact .inl hnone
    · have ht : step.target ∈ loaded.targets := hschedule.perm.mem_iff.mp (by simp)
      exact .inr ⟨hlowered, _, hblock, wired_waitFor hproject ht hacyclic henum tool⟩
  have hproject : ∀ step ∈ order, step.project = loaded.project := fun step hstep =>
    h.project_eq (hperm.mem_iff.mp hstep)
  refine ((List.forall₂_and_left _ _).mpr ⟨hproject, List.forall₂_map_left_iff.mp hblocks⟩).imp ?_
  rintro step block ⟨hproject, hblock⟩
  exact hblock step rfl hproject

/-- The lowered steps in some order, and their edges. -/
theorem Declares.exists_made (h : Declares descriptor loaded steps)
    (hacyclic : ∀ l, ¬ TransGen (DependsOn loaded.targets) l l)
    (hschedule : Schedule loaded.targets visits)
    (ha : a = run loaded.project rules (unknownDependencies loaded.targets) visits) :
    ∃ made : List Step, made.Perm (steps.filter fun step => a.lowered.contains step.label) ∧
      List.Forall₂ (Wired loaded) made a.edges := by
  obtain ⟨order, rfl, hperm⟩ := h.exists_order hschedule
  exact ⟨_, hperm.filter _, h.forall₂_wired hacyclic hperm hschedule ha⟩

theorem Declares.exists_made_of_assemble (h : Declares descriptor loaded steps)
    (ha : assemble loaded.project rules loaded.targets = .ok a) :
    ∃ made : List Step, made.Perm (steps.filter fun step => a.lowered.contains step.label) ∧
      List.Forall₂ (Wired loaded) made a.edges := by
  have hacyclic := (exists_assemble_iff h.distinct).mp ⟨a, ha⟩
  obtain ⟨visits, hschedule, ha'⟩ := exists_schedule h.distinct ha
  exact h.exists_made hacyclic hschedule ha'

namespace Sample

/-- Two runs over the output of a third, and a bundle of both with a file. -/
def diamond : Descriptor :=
  { environments := SortedMap.ofList
      [("host", SortedMap.ofList [("objcopy", "oc"), ("tar", "/bin/tar")])]
    packages := SortedMap.ofList [("fw",
      [declaration "bundle" "top"
          [("srcs", .sequence [.string ":left", .string "notes.txt", .string ":right"])],
        declaration "objcopy" "left" [("src", .string ":base")],
        declaration "objcopy" "right" [("src", .string ":base")],
        declaration "objcopy" "base" [("src", .string "base.elf")]])] }

/-- The rules of both verbs. -/
def bothRules : Except RuleError RuleTable :=
  RuleTable.empty.registerAll [Objcopy.rule,
    { name := "bundle", command := "$tar cf $out $in", description := "TAR $out" }]

end Sample

end BuildGraph
