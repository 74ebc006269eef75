import BuildGraph.Proofs.Settled

/-!
# Edges in blocks

Every visit adds one block of edges, so the edges of an assembly are the blocks of the targets in
the order of their visits (`edges_run`). A block is made with the assembly as it is at that moment.
But what it takes from it, the entries of targets visited before, is the same at the end
(`Schedule.entry_prefix`), and only a target that is lowered in the end has edges in its block
(`Schedule.block_cases`).
-/

namespace BuildGraph

open Relation

variable {project : Project} {rules : RuleTable} {t : Target}
variable {targets visits done rest : List Target}

/-- The edges that each of some visits adds. -/
def blocks (project : Project) (rules : RuleTable) (a : Assembly) : List Target → List (List Edge)
  | [] => []
  | t :: rest => a.block project rules t :: blocks project rules (a.next project rules t) rest

theorem edges_run (a : Assembly) (visits : List Target) :
    (run project rules a visits).edges = a.edges ++ (blocks project rules a visits).flatten := by
  induction visits generalizing a with
  | nil => simp [run, blocks]
  | cons t rest ih =>
    have hrest := ih (a.next project rules t)
    rw [Assembly.edges_next, List.append_assoc] at hrest
    exact hrest

/-- What holds of each visit and the block it adds to the assembly of that moment. -/
theorem forall₂_blocks {R : Target → List Edge → Prop} (start : Assembly) (visits : List Target)
    (h : ∀ done t rest, visits = done ++ t :: rest →
      R t ((run project rules start done).block project rules t)) :
    List.Forall₂ R visits (blocks project rules start visits) := by
  induction visits generalizing start with
  | nil => exact .nil
  | cons t rest ih =>
    refine .cons (h [] t rest rfl) (ih _ fun done u rest' hrest => ?_)
    exact h (t :: done) u rest' (by rw [hrest, List.cons_append])

/-- The blocks that are not empty, and the items that they belong to. -/
theorem exists_forall₂_filter {α β : Type} {p : α → Bool} {R : α → List β → Prop} {xs : List α}
    {bs : List (List β)} (h : List.Forall₂ (fun x b =>
      (p x = false ∧ b = []) ∨ (p x = true ∧ R x b)) xs bs) :
    ∃ kept, List.Forall₂ R (xs.filter p) kept ∧ kept.flatten = bs.flatten := by
  induction h with
  | nil => exact ⟨[], .nil, rfl⟩
  | @cons x b xs bs hxb _ ih =>
    obtain ⟨kept, hkept, hflatten⟩ := ih
    rcases hxb with ⟨hp, rfl⟩ | ⟨hp, hb⟩
    · refine ⟨kept, ?_, by simpa using hflatten⟩
      rwa [List.filter_cons_of_neg (by simp [hp])]
    · refine ⟨b :: kept, ?_, by simp [hflatten]⟩
      rw [List.filter_cons_of_pos hp]
      exact .cons hb hkept

namespace Schedule

/-- What is held under the label of a visited target stays. -/
theorem entry_prefix (project : Project) (rules : RuleTable)
    (h : Schedule targets (done ++ rest)) (start : Assembly) {l : Label}
    (hl : l ∈ done.map Target.label) :
    (run project rules start done).entry l =
      (run project rules start (done ++ rest)).entry l := by
  rw [run_append, entry_run_of_notMem project rules (h.notMem_rest hl)]

/-- The dependencies of visited targets that are targets have been visited before. -/
theorem mem_done_of_dependency (h : Schedule targets (done ++ t :: rest)) {u : Target}
    (hu : u ∈ done ++ [t]) {d : Label} (hd : d ∈ u.dependencies)
    (hmem : d ∈ targets.map Target.label) : d ∈ done.map Target.label := by
  obtain ⟨p, hp, rfl⟩ := List.mem_map.mp hmem
  exact List.mem_map_of_mem (h.preceded.mem_of_needs hu ⟨hp, hd⟩)

/-- So have the targets that the next one depends on through others. -/
theorem mem_done_of_transGen (h : Schedule targets (done ++ t :: rest)) {d : Label}
    (hd : TransGen (DependsOn targets) t.label d) (hmem : d ∈ targets.map Target.label) :
    d ∈ done.map Target.label := by
  have ht : t ∈ targets := h.perm.mem_iff.mp (by simp)
  induction hd with
  | single hstep =>
    obtain ⟨u, hu, hut, hd⟩ := hstep
    obtain rfl := eq_of_label_eq h.distinct hu ht hut
    exact h.mem_done_of_dependency (by simp) hd hmem
  | tail _ hstep ih =>
    obtain ⟨u, hu, rfl, hd⟩ := hstep
    obtain ⟨v, hv, hvu⟩ := List.mem_map.mp (ih (List.mem_map_of_mem hu))
    have hv' : v ∈ targets := h.perm.mem_iff.mp (List.mem_append_left _ hv)
    obtain rfl := eq_of_label_eq h.distinct hv' hu hvu
    exact h.mem_done_of_dependency (List.mem_append_left _ hv) hd hmem

/-- A visit records edges and a lowering only for a target that is lowered in the end, and then those
of a successful attempt. -/
theorem visit_cases (project : Project) (rules : RuleTable)
    (h : Schedule targets (done ++ t :: rest)) {a c : Assembly}
    (hc : c = run project rules (unknownDependencies targets) done)
    (ha : a = run project rules (unknownDependencies targets) (done ++ t :: rest)) :
    (a.lowered.get? t.label = none ∧ (c.next project rules t).edges = c.edges ∧
      (c.next project rules t).lowered = c.lowered) ∨
    (∃ x edges, a.lowered.get? t.label = some x ∧
      (c.attempt project rules t).1 = .ok (x, edges) ∧
      c.next project rules t = c.record t.label x edges) := by
  have ht : t ∈ targets := h.perm.mem_iff.mp (by simp)
  have hsame : (c.next project rules t).lowered.get? t.label = a.lowered.get? t.label := by
    have hwhole : done ++ t :: rest = (done ++ [t]) ++ rest := by simp
    rw [hwhole] at h ha
    have hmem : t.label ∈ (done ++ [t]).map Target.label := by simp
    have hentry := h.entry_prefix project rules (unknownDependencies targets) hmem
    rw [← ha, run_snoc, ← hc] at hentry
    exact congrArg Entry.lowering hentry
  have hblank : c.lowered.get? t.label = none := by
    have hnot : t.label ∉ done.map Target.label := fun hmem => h.notMem_rest hmem (by simp)
    have hstart := (entry_unknownDependencies h.distinct t.label).1 t ht rfl
    rw [← entry_run_of_notMem project rules hnot, ← hc] at hstart
    exact (Assembly.entry_eq_iff.mp hstart).1
  rw [← hsame]
  by_cases hf : c.failures.contains t.label = true
  · rw [Assembly.next_of_failed hf]
    exact .inl ⟨hblank, rfl, rfl⟩
  · rcases Assembly.next_cases project rules (Bool.eq_false_iff.mpr hf) with
      ⟨cause, -, hn⟩ | ⟨e, -, -, -, hn⟩ | ⟨x, edges, -, hx, hn⟩
    · rw [hn]
      exact .inl ⟨hblank, rfl, rfl⟩
    · rw [hn]
      exact .inl ⟨hblank, rfl, rfl⟩
    · rw [hn]
      exact .inr ⟨x, edges, SortedMap.get?_insert_self _ _ _, hx, rfl⟩

/-- So a visit adds edges only for a target that is lowered in the end. -/
theorem block_cases (project : Project) (rules : RuleTable)
    (h : Schedule targets (done ++ t :: rest)) {a c : Assembly}
    (hc : c = run project rules (unknownDependencies targets) done)
    (ha : a = run project rules (unknownDependencies targets) (done ++ t :: rest)) :
    (a.lowered.get? t.label = none ∧ c.block project rules t = []) ∨
    (∃ x edges, a.lowered.get? t.label = some x ∧ c.block project rules t = edges ∧
      (c.attempt project rules t).1 = .ok (x, edges)) := by
  have hedges : (c.next project rules t).edges = c.edges ++ c.block project rules t :=
    c.edges_next t
  rcases h.visit_cases project rules hc ha with ⟨hnone, hsame, -⟩ | ⟨x, edges, hx, hattempt, hn⟩
  · rw [hsame] at hedges
    exact .inl ⟨hnone, List.self_eq_append_right.mp hedges⟩
  · rw [hn] at hedges
    exact .inr ⟨x, edges, hx, (List.append_cancel_left hedges).symm, hattempt⟩

end Schedule

end BuildGraph
