import BuildGraph.Proofs.Accounts
import BuildGraph.Proofs.Wiring

/-!
# Assembling again

Resolving a target keeps its environment, so targets that have been resolved or assembled before are
not the ones that were declared. If that was done in the project that they are assembled in, it makes
no difference (`assemble_used`): a target keeps only what its look-up in that project gives, and
resolving it again gives the same.

Two lists of targets that differ in what was kept have the same labels and dependencies, so they are
visited in the same order and give rise to the same unknown dependencies. This does not ask for
different labels.
-/

namespace BuildGraph

variable {project : Project} {rules : RuleTable} {targets : List Target} {t : Target} {a : Assembly}

/-! ## What a target keeps -/

namespace Target

/-- The target as it is before it is resolved. -/
def unresolved (t : Target) : Target := { t with resolved := none }

/-- Whatever environment the target keeps, it found it in the project. -/
def KeptFrom (project : Project) (t : Target) : Prop :=
  ∀ environment, t.resolved = some environment →
    t.retention ≠ .forget ∧ t.lookup project = .ok environment

@[simp] theorem unresolved_label (t : Target) : t.unresolved.label = t.label := rfl

@[simp] theorem unresolved_dependencies (t : Target) :
    t.unresolved.dependencies = t.dependencies := rfl

theorem unresolved_eq_self (h : t.resolved = none) : t.unresolved = t := by
  cases t
  cases h
  rfl

theorem keptFrom_of_resolved_eq_none (h : t.resolved = none) : t.KeptFrom project := by
  intro environment henvironment
  rw [h] at henvironment
  cases henvironment

/-- All that resolving a target for the first time can do. -/
theorem resolve_unresolved (t : Target) (project : Project) :
    t.unresolved.resolve project = match t.lookup project with
      | .error fault => (.error ⟨t.label, fault⟩, t.unresolved)
      | .ok environment => (.ok environment,
        if t.retention = .forget then t.unresolved
        else { t with resolved := some environment }) := by
  have hself : t.unresolved.lookup project = t.lookup project := rfl
  rw [resolve, hself]
  cases hlookup : t.lookup project with
  | error fault => cases hretention : t.retention <;> simp [unresolved]
  | ok environment => cases hretention : t.retention <;> simp [unresolved, hretention, retain]

/-- What was kept from the project before does not show when the target is resolved in it. -/
theorem KeptFrom.resolve_eq (h : t.KeptFrom project) :
    t.resolve project = t.unresolved.resolve project := by
  cases hresolved : t.resolved with
  | none => rw [unresolved_eq_self hresolved]
  | some environment =>
    obtain ⟨hforget, hlookup⟩ := h environment hresolved
    have hself : { t with resolved := some environment } = t := by
      cases t
      cases hresolved
      rfl
    rw [resolve_unresolved, hlookup]
    simp only [if_neg hforget, hself]
    rw [resolve]
    cases hretention : t.retention with
    | keep => simp [hresolved]
    | keepAndCheck => simp [hlookup, retain, hresolved, hretention]
    | forget => exact absurd hretention hforget

/-- A target that was resolved in the project keeps what it found there. -/
theorem KeptFrom.resolve (h : t.KeptFrom project) : (t.resolve project).2.KeptFrom project := by
  rw [h.resolve_eq, resolve_unresolved]
  cases hlookup : t.lookup project with
  | error fault => exact keptFrom_of_resolved_eq_none rfl
  | ok environment =>
    by_cases hforget : t.retention = .forget
    · simp only [if_pos hforget]
      exact keptFrom_of_resolved_eq_none rfl
    · simp only [if_neg hforget]
      intro kept hkept
      obtain rfl := Option.some.inj hkept
      exact ⟨hforget, hlookup⟩

/-- Resolving changes nothing but what is kept. -/
theorem unresolved_resolve (t : Target) (project : Project) :
    (t.resolve project).2.unresolved = t.unresolved := by
  rw [Target.resolve]
  split
  · rfl
  · split
    · rfl
    · simp only [retain]
      split <;> rfl

end Target

/-! ## One visit -/

namespace Assembly

theorem next_unresolved (h : t.KeptFrom project) (a : Assembly) :
    a.next project rules t.unresolved = a.next project rules t := by
  have hattempt : (a.attempt project rules t.unresolved).1 = (a.attempt project rules t).1 := by
    rw [attempt_eq, attempt_eq, h.resolve_eq]
    rfl
  simp only [next, visit, hattempt, Target.unresolved_label, Target.unresolved_dependencies]
  split
  · rfl
  · split <;> rfl

/-- A visit leaves the target as it is or resolves it. -/
theorem visit_target (project : Project) (rules : RuleTable) (a : Assembly) (t : Target) :
    (a.visit project rules t).2 = t ∨ (a.visit project rules t).2 = (t.resolve project).2 := by
  rw [visit]
  split
  · exact .inl rfl
  · split
    · exact .inl rfl
    · rw [attempt]
      cases a.prepare t with
      | error fault => exact .inl rfl
      | ok prepared =>
        cases hres : t.resolve project with
        | mk result after =>
          cases result <;> exact .inr rfl

end Assembly

/-- A run goes the same way whatever was kept from the project before. -/
theorem run_map_unresolved {visits : List Target} (h : ∀ t ∈ visits, t.KeptFrom project)
    (start : Assembly) :
    run project rules start (visits.map Target.unresolved) = run project rules start visits := by
  induction visits generalizing start with
  | nil => rfl
  | cons t visits ih =>
    obtain ⟨ht, hvisits⟩ := List.forall_mem_cons.mp h
    show run project rules (start.next project rules t.unresolved) _ = _
    rw [Assembly.next_unresolved ht, ih hvisits]
    rfl

/-! ## Labels and dependencies -/

/-- The same graph on equally many nodes. -/
def Graph.cast {n m : Nat} (h : n = m) (g : Graph n) : Graph m :=
  ⟨g.arcs.map (Prod.map (Fin.cast h) (Fin.cast h))⟩

theorem Graph.order_cast {n m : Nat} (h : n = m) (g : Graph n) :
    (g.cast h).order = match g.order with
      | .error v => .error (v.cast h)
      | .ok order => .ok (order.map (Fin.cast h)) := by
  subst h
  have hself : g.cast rfl = g := by simp [Graph.cast]
  rw [hself]
  cases g.order <;> simp

theorem finRange_eq_map_cast {n m : Nat} (h : n = m) :
    List.finRange m = (List.finRange n).map (Fin.cast h) := by
  subst h
  simp

theorem nodeOf?_map_unresolved (targets : List Target) (l : Label) :
    nodeOf? (targets.map Target.unresolved) l =
      (nodeOf? targets l).map (Fin.cast (List.length_map _).symm) := by
  rw [nodeOf?, nodeOf?, finRange_eq_map_cast (List.length_map Target.unresolved).symm,
    ← List.map_reverse, List.find?_map]
  have hlabel : ∀ i : Fin targets.length, ((targets.map Target.unresolved).get
      (i.cast (List.length_map Target.unresolved).symm)).label = (targets.get i).label := by
    intro i
    simp
  simp only [Function.comp_def, hlabel]

theorem dependencyGraph_map_unresolved (targets : List Target) :
    dependencyGraph (targets.map Target.unresolved) =
      (dependencyGraph targets).cast (List.length_map _).symm := by
  simp only [dependencyGraph, Graph.cast, List.flatMap_map, List.map_flatMap,
    nodeOf?_map_unresolved]
  congr 2
  funext t
  rw [Target.unresolved_label]
  cases nodeOf? targets t.label with
  | none => rfl
  | some consumer =>
    simp only [Option.map_some, List.map_filterMap, Option.map_map]
    rfl

theorem unknownDependencies_map_unresolved (targets : List Target) :
    unknownDependencies (targets.map Target.unresolved) = unknownDependencies targets := by
  simp only [unknownDependencies, List.foldl_map, nodeOf?_map_unresolved]
  congr 1
  funext a t
  congr 1
  funext a dependency
  cases nodeOf? targets dependency <;> rfl

/-- Targets are assembled as if none of them had kept an environment from the project. -/
theorem assemble_map_unresolved (h : ∀ t ∈ targets, t.KeptFrom project) :
    assemble project rules (targets.map Target.unresolved) = assemble project rules targets := by
  have hcast := Graph.order_cast (List.length_map Target.unresolved).symm (dependencyGraph targets)
  rw [← dependencyGraph_map_unresolved] at hcast
  cases horder : (dependencyGraph targets).order with
  | error v =>
    rw [horder] at hcast
    rw [assemble_eq_of_error horder, assemble_eq_of_error hcast]
    simp
  | ok order =>
    rw [horder] at hcast
    have hnd := (Graph.order_eq_ok horder).1
    have hvisits : (order.map (Fin.cast (List.length_map Target.unresolved).symm)).map
        (targets.map Target.unresolved).get = (order.map targets.get).map Target.unresolved := by
      simp [Function.comp_def]
    have hkept : ∀ t ∈ order.map targets.get, t.KeptFrom project := by
      intro t ht
      obtain ⟨i, -, rfl⟩ := List.mem_map.mp ht
      exact h _ (targets.get_mem i)
    rw [assemble_eq_of_order horder hnd,
      assemble_eq_of_order hcast (Graph.order_eq_ok hcast).1, hvisits, run_map_unresolved hkept,
      unknownDependencies_map_unresolved]

/-! ## What is left of the targets -/

/-- Targets after they were put to use in a project. -/
structure LeftBy (project : Project) (before after : List Target) : Prop where
  unresolved : after.map Target.unresolved = before.map Target.unresolved
  kept : (∀ t ∈ before, t.KeptFrom project) → ∀ t ∈ after, t.KeptFrom project

namespace LeftBy

variable {before between after : List Target}

theorem refl (project : Project) (targets : List Target) : LeftBy project targets targets :=
  ⟨rfl, id⟩

theorem trans (h : LeftBy project before between) (h' : LeftBy project between after) :
    LeftBy project before after :=
  ⟨h'.unresolved.trans h.unresolved, fun hkept => h'.kept (h.kept hkept)⟩

/-- One of the targets is resolved. -/
theorem set {i : Nat} (hi : targets[i]? = some t) :
    LeftBy project targets (targets.set i (t.resolve project).2) where
  unresolved := by
    obtain ⟨hlt, rfl⟩ := List.getElem?_eq_some_iff.mp hi
    rw [List.map_set, Target.unresolved_resolve, ← List.map_set, List.set_getElem_self]
  kept hkept u hu := by
    rcases List.mem_or_eq_of_mem_set hu with hu | rfl
    · exact hkept u hu
    · exact (hkept t (List.mem_of_getElem? hi)).resolve

theorem visitAll (start : Assembly) (targets : List Target) (nodes : List Nat) :
    LeftBy project targets (visitAll project rules start targets nodes).2 := by
  induction nodes generalizing start targets with
  | nil => exact refl project targets
  | cons i nodes ih =>
    rw [BuildGraph.visitAll]
    cases hi : targets[i]? with
    | none => exact ih start targets
    | some t =>
      have hvisit : LeftBy project targets (targets.set i (start.visit project rules t).2) := by
        rcases Assembly.visit_target project rules start t with h | h <;> rw [h]
        · obtain ⟨hlt, rfl⟩ := List.getElem?_eq_some_iff.mp hi
          rw [List.set_getElem_self]
          exact refl project targets
        · exact set hi
      exact hvisit.trans (ih _ _)

theorem assembleKeeping (rules : RuleTable) (targets : List Target) :
    LeftBy project targets (assembleKeeping project rules targets).2 := by
  rw [BuildGraph.assembleKeeping]
  cases (dependencyGraph targets).order with
  | error v => exact refl project targets
  | ok order => exact visitAll _ targets _

theorem assemble_eq (h : LeftBy project before after) (hkept : ∀ t ∈ before, t.KeptFrom project) :
    assemble project rules after = assemble project rules before := by
  rw [← assemble_map_unresolved (h.kept hkept), h.unresolved, assemble_map_unresolved hkept]

end LeftBy

/-- What targets may be used for in a project. -/
inductive Use where
  /-- The target at that place is resolved. -/
  | resolve (place : Nat)
  /-- All targets are assembled, by whatever rules. -/
  | assemble (rules : RuleTable)

/-- The targets after one use of them. -/
def useIn (project : Project) (targets : List Target) : Use → List Target
  | .resolve place =>
    match targets[place]? with
    | some t => targets.set place (t.resolve project).2
    | none => targets
  | .assemble rules => (assembleKeeping project rules targets).2

/-- The targets after they were used one way after another. -/
def useAll (project : Project) (targets : List Target) (uses : List Use) : List Target :=
  uses.foldl (useIn project) targets

theorem leftBy_useIn (targets : List Target) (use : Use) :
    LeftBy project targets (useIn project targets use) := by
  cases use with
  | resolve place =>
    rw [useIn]
    cases hi : targets[place]? with
    | none => exact .refl project targets
    | some t => exact .set hi
  | assemble rules => exact .assembleKeeping rules targets

theorem leftBy_useAll (targets : List Target) (uses : List Use) :
    LeftBy project targets (useAll project targets uses) := by
  induction uses generalizing targets with
  | nil => exact .refl project targets
  | cons use uses ih => exact (leftBy_useIn targets use).trans (ih _)

/-- Targets that were used in the project before, in whatever way, are assembled like those that were
declared. In particular, assembling them twice gives the same result twice. -/
theorem assemble_used (hfresh : ∀ t ∈ targets, t.resolved = none) (uses : List Use) :
    assemble project rules (useAll project targets uses) = assemble project rules targets ∧
    assemble project rules (assembleKeeping project rules targets).2 =
      (assembleKeeping project rules targets).1 := by
  have hkept : ∀ t ∈ targets, t.KeptFrom project := fun t ht =>
    Target.keptFrom_of_resolved_eq_none (hfresh t ht)
  exact ⟨(leftBy_useAll targets uses).assemble_eq hkept,
    (LeftBy.assembleKeeping rules targets).assemble_eq hkept⟩

namespace Sample

/-- A project with one environment. -/
def hosting : Project :=
  { environments := SortedMap.ofList
      [("host", SortedMap.ofList [("objcopy", "oc"), ("tar", "/bin/tar")])] }

/-- A run of the tool over a file. -/
def runOver (path : String) : Objcopy :=
  { project := hosting, label := base, environment := "host", source := .source path, options := "" }

/-- A bundle of sources. -/
def packed (label : Label) (sources : List Artifact) : Target :=
  Bundle.target { project := hosting, label, environment := "host", sources }

/-- Two runs of one label, a bundle of their output and a bundle of that one, a target whose
environment does not exist, and a bundle that needs it. -/
def mixture : List Target :=
  [packed top [.output base, .output lost], (runOver "a.elf").target, missing,
    (runOver "b.elf").target, packed mid [.output base, .source "notes"],
    packed leaf [.output mid]]

/-- Some are resolved before all are assembled, one of them twice and one that fails. -/
def uses (rules : RuleTable) : List Use :=
  [.resolve 2, .resolve 1, .assemble rules, .resolve 1, .resolve 0]

end Sample

theorem assemble_used_sample : ∃ rules, Sample.bothRules = .ok rules ∧
    (∀ t ∈ Sample.mixture, t.resolved = none) ∧
    (useAll Sample.hosting Sample.mixture (Sample.uses rules)).map (·.resolved.isSome) =
      [true, true, false, true, true, true] ∧
    assemble Sample.hosting rules (useAll Sample.hosting Sample.mixture (Sample.uses rules)) =
      assemble Sample.hosting rules Sample.mixture ∧
    assemble Sample.hosting rules (assembleKeeping Sample.hosting rules Sample.mixture).2 =
      (assembleKeeping Sample.hosting rules Sample.mixture).1 ∧
    ∃ a, assemble Sample.hosting rules Sample.mixture = .ok a ∧
      a.edges.map Edge.outputs =
        [["gen/fw/base"], ["gen/fw/mid"], ["gen/fw/leaf"], ["gen/fw/base"]] ∧
      a.edges.map Edge.implicit = [[], [], ["gen/fw/base"], []] ∧
      a.failures.keys = [Sample.lost] ∧ a.skipped.entries = [(Sample.top, Sample.lost)] ∧
      (a.exports? Sample.mid).map (·.ops.keys) = some [implicitField] ∧
      (a.bindings? Sample.leaf).map (·.values.entries) =
        some [(implicitField, .list ["//fw:base", "//fw:mid"])] := by
  have hresolved : (Sample.bothRules.toOption.map fun rules =>
      (useAll Sample.hosting Sample.mixture (Sample.uses rules)).map (·.resolved.isSome)) =
      some [true, true, false, true, true, true] := by decide +kernel
  have hassembled : (Sample.bothRules.toOption.bind fun rules =>
      (assemble Sample.hosting rules Sample.mixture).toOption.map fun a =>
        (a.edges.map Edge.outputs, a.edges.map Edge.implicit, a.failures.keys,
          a.skipped.entries)) =
      some ([["gen/fw/base"], ["gen/fw/mid"], ["gen/fw/leaf"], ["gen/fw/base"]],
        [[], [], ["gen/fw/base"], []], [Sample.lost], [(Sample.top, Sample.lost)]) := by
    decide +kernel
  have hpassed : (Sample.bothRules.toOption.bind fun rules =>
      (assemble Sample.hosting rules Sample.mixture).toOption.map fun a =>
        ((a.exports? Sample.mid).map (·.ops.keys),
          (a.bindings? Sample.leaf).map (·.values.entries))) =
      some (some [implicitField], some [(implicitField, .list ["//fw:base", "//fw:mid"])]) := by
    decide +kernel
  obtain ⟨rules, hrules, hassembled⟩ := Option.bind_eq_some_iff.mp hassembled
  rw [hrules] at hresolved hpassed
  obtain ⟨a, ha, hview⟩ := Option.map_eq_some_iff.mp hassembled
  simp only [Option.bind_some, ha, Option.map_some, Option.some.injEq, Prod.mk.injEq] at hpassed
  simp only [Prod.mk.injEq] at hview
  obtain ⟨houtputs, himplicit, hfailures, hskipped⟩ := hview
  have hfresh : ∀ t ∈ Sample.mixture, t.resolved = none := by decide
  obtain ⟨hused, htwice⟩ := assemble_used hfresh (Sample.uses rules)
  exact ⟨rules, eq_ok_of_toOption hrules, hfresh, Option.some.inj hresolved, hused, htwice,
    a, eq_ok_of_toOption ha, houtputs, himplicit, hfailures, hskipped, hpassed⟩

end BuildGraph
