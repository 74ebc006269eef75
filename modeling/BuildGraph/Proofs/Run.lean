import BuildGraph.Proofs.Schedule
import BuildGraph.Proofs.Visit
import Mathlib.Data.List.Perm.Basic

/-!
# Whole runs

Assembling targets with different labels visits each once, producers first (`assemble_eq_run`), and
it is possible exactly if no target depends on itself (`exists_assemble_iff`).
-/

namespace BuildGraph

open Relation

variable {project : Project} {rules : RuleTable} {targets visits : List Target} {a : Assembly}

/-- The target of label `l` declares a dependency on `d`. -/
def DependsOn (targets : List Target) (l d : Label) : Prop :=
  ∃ t ∈ targets, t.label = l ∧ d ∈ t.dependencies

/-! ## Nodes and arcs -/

/-- Of targets with different labels, two with one label are the same. -/
theorem eq_of_label_eq (distinct : (targets.map Target.label).Nodup) {t u : Target}
    (ht : t ∈ targets) (hu : u ∈ targets) (h : t.label = u.label) : t = u :=
  List.inj_on_of_nodup_map distinct ht hu h

theorem get_label_injective (distinct : (targets.map Target.label).Nodup)
    {i j : Fin targets.length} (h : (targets.get i).label = (targets.get j).label) : i = j := by
  have hnd := List.Nodup.of_map _ distinct
  exact List.nodup_iff_injective_get.mp hnd
    (eq_of_label_eq distinct (targets.get_mem i) (targets.get_mem j) h)

theorem nodeOf?_eq_some (distinct : (targets.map Target.label).Nodup) {l : Label}
    {i : Fin targets.length} : nodeOf? targets l = some i ↔ (targets.get i).label = l := by
  constructor
  · intro h
    simpa using List.find?_some h
  · intro h
    cases hfind : nodeOf? targets l with
    | none =>
      have hnot := List.find?_eq_none.mp hfind i (by simp)
      exact absurd h (by simpa using hnot)
    | some j =>
      have hj : (targets.get j).label = l := by simpa using List.find?_some hfind
      rw [get_label_injective distinct (hj.trans h.symm)]

theorem nodeOf?_eq_none {l : Label} :
    nodeOf? targets l = none ↔ l ∉ targets.map Target.label := by
  simp only [nodeOf?, List.find?_eq_none, List.mem_reverse, List.mem_finRange, true_implies,
    decide_eq_true_eq, List.mem_map, not_exists, not_and]
  constructor
  · rintro h t ht rfl
    obtain ⟨i, rfl⟩ := List.get_of_mem ht
    exact h i rfl
  · intro h i
    exact h _ (targets.get_mem i)

theorem arc_iff (distinct : (targets.map Target.label).Nodup) {p c : Fin targets.length} :
    (dependencyGraph targets).Arc p c ↔
      (targets.get p).label ∈ (targets.get c).dependencies := by
  simp only [Graph.Arc, dependencyGraph, List.mem_flatMap]
  constructor
  · rintro ⟨t, ht, hmem⟩
    obtain ⟨i, rfl⟩ := List.get_of_mem ht
    rw [(nodeOf?_eq_some distinct).mpr rfl, List.mem_filterMap] at hmem
    obtain ⟨d, hd, hmap⟩ := hmem
    obtain ⟨j, hj, hpair⟩ := Option.map_eq_some_iff.mp hmap
    obtain ⟨rfl, rfl⟩ := Prod.mk.inj hpair
    rw [(nodeOf?_eq_some distinct).mp hj]
    exact hd
  · intro h
    refine ⟨targets.get c, targets.get_mem c, ?_⟩
    rw [(nodeOf?_eq_some distinct).mpr rfl, List.mem_filterMap]
    exact ⟨_, h, by rw [(nodeOf?_eq_some distinct).mpr rfl]; rfl⟩

/-- A way between targets along dependencies is one between their nodes. -/
theorem exists_nodes_of_transGen (distinct : (targets.map Target.label).Nodup) {l d : Label}
    (h : TransGen (DependsOn targets) l d) (hd : d ∈ targets.map Target.label) :
    ∃ i j, (targets.get i).label = l ∧ (targets.get j).label = d ∧
      TransGen (Function.swap (dependencyGraph targets).Arc) i j := by
  have hnode : ∀ {m : Label}, m ∈ targets.map Target.label → ∃ i, (targets.get i).label = m := by
    intro m hm
    obtain ⟨t, ht, rfl⟩ := List.mem_map.mp hm
    obtain ⟨i, rfl⟩ := List.get_of_mem ht
    exact ⟨i, rfl⟩
  induction h with
  | single hstep =>
    obtain ⟨t, ht, rfl, hdep⟩ := hstep
    obtain ⟨i, rfl⟩ := List.get_of_mem ht
    obtain ⟨j, rfl⟩ := hnode hd
    exact ⟨i, j, rfl, rfl, .single ((arc_iff distinct).mpr hdep)⟩
  | tail _ hstep ih =>
    obtain ⟨t, ht, rfl, hdep⟩ := hstep
    obtain ⟨i, k, hi, hk, hik⟩ := ih (List.mem_map_of_mem ht)
    obtain ⟨j, rfl⟩ := hnode hd
    obtain rfl := eq_of_label_eq distinct (targets.get_mem k) ht hk
    exact ⟨i, j, hi, rfl, hik.tail ((arc_iff distinct).mpr hdep)⟩

/-- A way between nodes, gone backwards, is one between their targets along dependencies. -/
theorem transGen_of_arcs (distinct : (targets.map Target.label).Nodup)
    {p c : Fin targets.length} (h : TransGen (dependencyGraph targets).Arc p c) :
    TransGen (DependsOn targets) (targets.get c).label (targets.get p).label := by
  refine transGen_swap.mp (h.lift (fun i => (targets.get i).label) ?_)
  intro p c harc
  exact ⟨targets.get c, targets.get_mem c, rfl, (arc_iff distinct).mp harc⟩

theorem acyclic_iff (distinct : (targets.map Target.label).Nodup) :
    (∀ v, ¬ TransGen (dependencyGraph targets).Arc v v) ↔
      ∀ l, ¬ TransGen (DependsOn targets) l l := by
  constructor
  · intro h l hl
    have hmem : l ∈ targets.map Target.label := by
      obtain ⟨_, ⟨t, ht, rfl, _⟩, _⟩ := TransGen.head'_iff.mp hl
      exact List.mem_map_of_mem ht
    obtain ⟨i, j, hi, hj, hij⟩ := exists_nodes_of_transGen distinct hl hmem
    obtain rfl := get_label_injective distinct (hi.trans hj.symm)
    exact h i (transGen_swap.mp hij)
  · intro h v hv
    exact h _ (transGen_of_arcs distinct hv)

/-! ## Schedules -/

/-- The targets in an order in which they may be visited. -/
structure Schedule (targets visits : List Target) : Prop where
  perm : visits.Perm targets
  nodup : (visits.map Target.label).Nodup
  preceded : Preceded (fun t u => u ∈ targets ∧ u.label ∈ t.dependencies) visits

namespace Schedule

theorem distinct (h : Schedule targets visits) : (targets.map Target.label).Nodup :=
  (h.perm.map Target.label).nodup_iff.mp h.nodup

/-- A target that has been visited is not visited again. -/
theorem notMem_rest {done rest : List Target} (h : Schedule targets (done ++ rest)) {l : Label}
    (hl : l ∈ done.map Target.label) : l ∉ rest.map Target.label := by
  have hnd := h.nodup
  rw [List.map_append, List.nodup_append] at hnd
  exact fun hrest => hnd.2.2 l hl l hrest rfl

end Schedule

/-- The assembly after visiting targets one after another. -/
def run (project : Project) (rules : RuleTable) (start : Assembly) (visits : List Target) :
    Assembly :=
  visits.foldl (Assembly.next project rules) start

theorem run_snoc (start : Assembly) (t : Target) : run project rules start (visits ++ [t]) =
    (run project rules start visits).next project rules t := by
  simp [run]

theorem run_append (start : Assembly) (done rest : List Target) :
    run project rules start (done ++ rest) =
      run project rules (run project rules start done) rest :=
  List.foldl_append

/-- What is held under a label changes only when a target of that label is visited. -/
theorem entry_run_of_notMem (project : Project) (rules : RuleTable) {l : Label}
    (hl : l ∉ visits.map Target.label) (start : Assembly) :
    (run project rules start visits).entry l = start.entry l := by
  induction visits generalizing start with
  | nil => rfl
  | cons t rest ih =>
    rw [List.map_cons, List.mem_cons, not_or] at hl
    exact (ih hl.2 _).trans (Assembly.entry_next_of_ne hl.1)

/-- What a visit changes of a target is not seen by visits of others. -/
theorem visitAll_eq_run {nodes : List Nat} (hnd : nodes.Nodup) (start : Assembly)
    {current : List Target} (hcurrent : ∀ i ∈ nodes, current[i]? = targets[i]?) :
    (visitAll project rules start current nodes).1 =
      run project rules start (nodes.filterMap (targets[·]?)) := by
  induction nodes generalizing start current with
  | nil => rfl
  | cons i nodes ih =>
    obtain ⟨hi, hnd⟩ := List.nodup_cons.mp hnd
    rw [visitAll, hcurrent i List.mem_cons_self]
    cases ht : targets[i]? with
    | none =>
      simp only [List.filterMap_cons, ht]
      exact ih hnd start fun j hj => hcurrent j (List.mem_cons_of_mem _ hj)
    | some t =>
      simp only [List.filterMap_cons, ht]
      refine ih hnd (start.next project rules t) ?_
      -- the nodes still to visit are others, so their targets are as they were given
      intro j hj
      have hij : i ≠ j := fun h => hi (h ▸ hj)
      rw [List.getElem?_set_ne hij, hcurrent j (List.mem_cons_of_mem _ hj)]

theorem schedule_of_order (distinct : (targets.map Target.label).Nodup)
    {order : List (Fin targets.length)} (h : (dependencyGraph targets).order = .ok order) :
    Schedule targets (order.map targets.get) := by
  obtain ⟨hnd, hall, hprec⟩ := Graph.order_eq_ok h
  have hperm : (order.map targets.get).Perm targets := by
    have hfin : order.Perm (List.finRange targets.length) :=
      (List.perm_ext_iff_of_nodup hnd (List.nodup_finRange _)).mpr fun v => by simp [hall v]
    simpa using hfin.map targets.get
  refine ⟨hperm, (hperm.map Target.label).nodup_iff.mpr distinct, ?_⟩
  intro before t after hsplit u hu
  obtain ⟨first, rest, rfl, rfl, hrest⟩ := List.map_eq_append_iff.mp hsplit
  obtain ⟨c, rest, rfl, rfl, -⟩ := List.map_eq_cons_iff.mp hrest
  obtain ⟨p, rfl⟩ := List.get_of_mem hu.1
  exact List.mem_map_of_mem (hprec first c rest rfl p ((arc_iff distinct).mpr hu.2))

theorem assemble_eq_of_order {order : List (Fin targets.length)}
    (h : (dependencyGraph targets).order = .ok order) (hnd : order.Nodup) :
    assemble project rules targets =
      .ok (run project rules (unknownDependencies targets) (order.map targets.get)) := by
  have hnodes : (order.map Fin.val).filterMap (targets[·]?) = order.map targets.get := by
    rw [List.filterMap_map]
    have hget : ((fun i : Nat => targets[i]?) ∘ Fin.val) = some ∘ targets.get := by
      funext i
      simp
    rw [hget, List.filterMap_eq_map]
  have hvals : (order.map Fin.val).Nodup := hnd.map Fin.val_injective
  simp only [assemble, assembleKeeping, h]
  rw [visitAll_eq_run hvals _ fun i _ => rfl, hnodes]

theorem assemble_eq_of_error {v : Fin targets.length}
    (h : (dependencyGraph targets).order = .error v) :
    assemble project rules targets = .error (.cycle (targets.get v).label) := by
  simp only [assemble, assembleKeeping, h]

/-- The targets in the order in which they are visited, if there is one. -/
def visitOrder (targets : List Target) : List Target :=
  match (dependencyGraph targets).order with
  | .ok order => order.map targets.get
  | .error _ => []

/-- Assembling visits every target once, after those that it depends on. -/
theorem assemble_eq_run (distinct : (targets.map Target.label).Nodup)
    (h : assemble project rules targets = .ok a) : Schedule targets (visitOrder targets) ∧
      a = run project rules (unknownDependencies targets) (visitOrder targets) := by
  rw [visitOrder]
  cases horder : (dependencyGraph targets).order with
  | error v =>
    rw [assemble_eq_of_error horder] at h
    cases h
  | ok order =>
    have hnd := (Graph.order_eq_ok horder).1
    rw [assemble_eq_of_order horder hnd] at h
    exact ⟨schedule_of_order distinct horder, (Except.ok.inj h).symm⟩

theorem exists_schedule (distinct : (targets.map Target.label).Nodup)
    (h : assemble project rules targets = .ok a) :
    ∃ visits, Schedule targets visits ∧
      a = run project rules (unknownDependencies targets) visits :=
  ⟨_, assemble_eq_run distinct h⟩

/-- Targets can be assembled exactly if none depends on itself. -/
theorem exists_assemble_iff (distinct : (targets.map Target.label).Nodup) :
    (∃ a, assemble project rules targets = .ok a) ↔ ∀ l, ¬ TransGen (DependsOn targets) l l := by
  rw [← acyclic_iff distinct, ← Graph.exists_order_iff]
  constructor
  · rintro ⟨a, h⟩
    cases horder : (dependencyGraph targets).order with
    | error v =>
      rw [assemble_eq_of_error horder] at h
      cases h
    | ok order => exact ⟨order, rfl⟩
  · rintro ⟨order, horder⟩
    exact ⟨_, assemble_eq_of_order horder (Graph.order_eq_ok horder).1⟩

end BuildGraph
