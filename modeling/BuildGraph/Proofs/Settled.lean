import BuildGraph.Proofs.Run

/-!
# Settled assemblies

What an assembly holds at the end under the label of a target is what its own entries for the
dependencies give that target (`Settled`, `settled_of_assemble`). Nothing in this says in which
order the targets were visited, so statements about assemblies follow from it without going back to
the visits.

The induction over the visits carries the same statement about the targets visited so far. A target
visited later is no dependency of one visited before, so its visit does not disturb what is settled.
-/

namespace BuildGraph

open Relation

variable {project : Project} {rules : RuleTable} {targets visits : List Target} {a : Assembly}

/-! ## Unknown dependencies -/

/-- The dependency that a target is reported for if it depends on something that is no target: of
several, the last. -/
def Target.unknown? (targets : List Target) (t : Target) : Option Label :=
  t.dependencies.reverse.find? fun d => d ∉ targets.map Target.label

theorem Target.unknown?_eq_none {t : Target} : t.unknown? targets = none ↔
    ∀ d ∈ t.dependencies, d ∈ targets.map Target.label := by
  simp [unknown?, List.find?_eq_none]

theorem Target.unknown?_eq_some {t : Target} {d : Label} (h : t.unknown? targets = some d) :
    d ∈ t.dependencies ∧ d ∉ targets.map Target.label := by
  have hmem := List.mem_of_find?_eq_some h
  have hsome := List.find?_some h
  exact ⟨List.mem_reverse.mp hmem, by simpa using hsome⟩

/-- The failure of a target that depends on something that is no target. -/
def Target.unknownFailure? (targets : List Target) (t : Target) : Option TargetError :=
  (t.unknown? targets).map fun d => ⟨t.label, .unknownDependency d⟩

/-- Record a failure for each dependency of `label` that is no target. -/
def failUnknown (targets : List Target) (label : Label) (a : Assembly)
    (dependencies : List Label) : Assembly :=
  dependencies.foldl (fun a dependency =>
    match nodeOf? targets dependency with
    | some _ => a
    | none => a.fail ⟨label, .unknownDependency dependency⟩) a

theorem entry_failUnknown_of_ne {label l : Label} (h : l ≠ label) (a : Assembly)
    (dependencies : List Label) :
    (failUnknown targets label a dependencies).entry l = a.entry l := by
  induction dependencies generalizing a with
  | nil => rfl
  | cons d rest ih =>
    rw [failUnknown, List.foldl_cons, ← failUnknown, ih]
    split
    · rfl
    · rw [Assembly.entry_fail, if_neg h]

theorem entry_failUnknown_self (label : Label) (a : Assembly) (dependencies : List Label) :
    (failUnknown targets label a dependencies).entry label =
      { a.entry label with
        failure := ((dependencies.reverse.find? fun d => d ∉ targets.map Target.label).map
          fun d => ⟨label, .unknownDependency d⟩).or (a.entry label).failure } := by
  induction dependencies generalizing a with
  | nil => rfl
  | cons d rest ih =>
    rw [failUnknown, List.foldl_cons, ← failUnknown, ih, List.reverse_cons, List.find?_append]
    cases hnode : nodeOf? targets d with
    | some i =>
      have hd : d ∈ targets.map Target.label := by
        by_contra hnot
        rw [nodeOf?_eq_none.mpr hnot] at hnode
        cases hnode
      rw [List.find?_cons_of_neg (by simpa using hd), List.find?_nil, Option.or_none]
    | none =>
      have hd : d ∉ targets.map Target.label := nodeOf?_eq_none.mp hnode
      rw [Assembly.entry_fail, if_pos rfl, List.find?_cons_of_pos (by simpa using hd)]
      cases rest.reverse.find? fun d => decide (d ∉ targets.map Target.label) <;> rfl

theorem edges_failUnknown (label : Label) (a : Assembly) (dependencies : List Label) :
    (failUnknown targets label a dependencies).edges = a.edges := by
  induction dependencies generalizing a with
  | nil => rfl
  | cons d rest ih =>
    rw [failUnknown, List.foldl_cons, ← failUnknown, ih]
    split <;> rfl

/-- The failures that are recorded before any target is visited. -/
theorem entry_unknownDependencies (distinct : (targets.map Target.label).Nodup) (l : Label) :
    (∀ t ∈ targets, t.label = l →
      (unknownDependencies targets).entry l = ⟨none, t.unknownFailure? targets, none⟩) ∧
    (l ∉ targets.map Target.label → (unknownDependencies targets).entry l = .blank) := by
  have hfold : ∀ (some : List Target) (a : Assembly), (some.map Target.label).Nodup →
      (∀ t ∈ some, t.label = l →
        (some.foldl (fun a t => failUnknown targets t.label a t.dependencies) a).entry l =
          { a.entry l with failure := (t.unknownFailure? targets).or (a.entry l).failure }) ∧
      (l ∉ some.map Target.label →
        (some.foldl (fun a t => failUnknown targets t.label a t.dependencies) a).entry l =
          a.entry l) := by
    intro some
    induction some with
    | nil =>
      intro a _
      exact ⟨by simp, fun _ => rfl⟩
    | cons u rest ih =>
      intro a hnd
      obtain ⟨hu, hnd⟩ := List.nodup_cons.mp hnd
      obtain ⟨ihmem, ihout⟩ := ih (failUnknown targets u.label a u.dependencies) hnd
      constructor
      · rintro t ht rfl
        rw [List.foldl_cons]
        rcases List.mem_cons.mp ht with rfl | ht
        · rw [ihout hu]
          exact entry_failUnknown_self _ _ _
        · have hne : t.label ≠ u.label := fun h => hu (h ▸ List.mem_map_of_mem ht)
          rw [ihmem t ht rfl, entry_failUnknown_of_ne hne]
      · intro hl
        rw [List.map_cons, List.mem_cons, not_or] at hl
        rw [List.foldl_cons, ihout hl.2, entry_failUnknown_of_ne hl.1]
  obtain ⟨hmem, hout⟩ := hfold targets {} distinct
  refine ⟨fun t ht hl => ?_, hout⟩
  refine (hmem t ht hl).trans ?_
  simp [Assembly.entry_empty, Entry.blank]

theorem edges_unknownDependencies (targets : List Target) :
    (unknownDependencies targets).edges = [] := by
  have hfold : ∀ (some : List Target) (a : Assembly),
      (some.foldl (fun a t => failUnknown targets t.label a t.dependencies) a).edges = a.edges := by
    intro some
    induction some with
    | nil => intro a; rfl
    | cons u rest ih =>
      intro a
      rw [List.foldl_cons, ih, edges_failUnknown]
  exact hfold targets {}

/-! ## Settled -/

/-- The outcome of a target, given what an assembly holds under the labels of its dependencies. -/
def Assembly.outcome (project : Project) (rules : RuleTable) (targets : List Target) (a : Assembly)
    (t : Target) : Outcome :=
  match t.unknownFailure? targets with
  | some e => .failed e
  | none => a.verdict project rules t

/-- An assembly holds under each label what its own entries for the dependencies make of it. -/
structure Settled (project : Project) (rules : RuleTable) (targets : List Target) (a : Assembly) :
    Prop where
  clean : a.Clean
  entry : ∀ t ∈ targets, a.entry t.label = (a.outcome project rules targets t).entry
  blank : ∀ l ∉ targets.map Target.label, a.entry l = .blank

theorem Assembly.outcome_congr {b : Assembly} {t : Target}
    (h : ∀ d ∈ t.dependencies, a.entry d = b.entry d) (ha : a.Clean) (hb : b.Clean) :
    a.outcome project rules targets t = b.outcome project rules targets t := by
  rw [outcome, outcome]
  split
  · rfl
  · exact verdict_congr h ha hb

/-- A target that is visited gets its outcome, be it a failure that was recorded before. -/
theorem Assembly.entry_next_outcome {t : Target}
    (h : a.entry t.label = ⟨none, t.unknownFailure? targets, none⟩) :
    (a.next project rules t).entry t.label = (a.outcome project rules targets t).entry := by
  rw [outcome]
  cases hunknown : t.unknownFailure? targets with
  | some e =>
    rw [hunknown] at h
    have hfailed := SortedMap.contains_of_get? (entry_eq_iff.mp h).2.1
    rw [next_of_failed hfailed, h]
    rfl
  | none =>
    rw [hunknown] at h
    exact entry_next_self h

theorem clean_run {start : Assembly} (h : start.Clean) (visits : List Target) :
    (run project rules start visits).Clean := by
  induction visits generalizing start with
  | nil => exact h
  | cons t rest ih => exact ih (Assembly.clean_next h)

namespace Schedule

/-- A target visited later is no dependency of one visited before, nor of itself. -/
theorem not_dependency {done rest : List Target} {t u : Target}
    (h : Schedule targets (done ++ t :: rest)) (hu : u ∈ done ++ [t]) :
    t.label ∉ u.dependencies := by
  intro hdep
  have ht : t ∈ targets := h.perm.mem_iff.mp (by simp)
  have hdone : t ∈ done := h.preceded.mem_of_needs hu ⟨ht, hdep⟩
  exact h.notMem_rest (List.mem_map_of_mem hdone) (by simp)

/-- The targets visited so far are settled. -/
theorem settled_prefix (project : Project) (rules : RuleTable) (h : Schedule targets visits)
    (start : Assembly) (hclean : start.Clean)
    (hstart : ∀ t ∈ targets, start.entry t.label = ⟨none, t.unknownFailure? targets, none⟩)
    {done rest : List Target} (hsplit : visits = done ++ rest) :
    ∀ t ∈ done, (run project rules start done).entry t.label =
      ((run project rules start done).outcome project rules targets t).entry := by
  induction done using List.reverseRecOn generalizing rest with
  | nil => simp
  | append_singleton done t ih =>
    subst hsplit
    have hdone := ih (show done ++ [t] ++ rest = done ++ t :: rest by simp)
    rw [List.append_assoc, List.singleton_append] at h
    have hnot : t.label ∉ done.map Target.label := fun hmem => h.notMem_rest hmem (by simp)
    have ht : t ∈ targets := h.perm.mem_iff.mp (by simp)
    have htodo := (entry_run_of_notMem project rules hnot start).trans (hstart t ht)
    have hcl : (run project rules start done).Clean := clean_run hclean done
    rw [run_snoc]
    generalize run project rules start done = current at hcl hdone htodo ⊢
    intro u hu
    -- the visit of `t` is not seen by any of these, since none of them depends on `t`
    have hsame : current.outcome project rules targets u =
        (current.next project rules t).outcome project rules targets u := by
      refine Assembly.outcome_congr (fun d hd => ?_) hcl (Assembly.clean_next hcl)
      exact (Assembly.entry_next_of_ne fun hdt => h.not_dependency hu (hdt ▸ hd)).symm
    rw [← hsame]
    rcases List.mem_append.mp hu with hu | hu
    · have hne : u.label ≠ t.label := fun hut => hnot (hut ▸ List.mem_map_of_mem hu)
      rw [Assembly.entry_next_of_ne hne, hdone u hu]
    · obtain rfl := List.mem_singleton.mp hu
      exact Assembly.entry_next_outcome htodo

end Schedule

theorem lowered_unknownDependencies (distinct : (targets.map Target.label).Nodup) :
    (unknownDependencies targets).lowered = .empty := by
  refine SortedMap.ext_get? fun l => ?_
  obtain ⟨hmem, hout⟩ := entry_unknownDependencies distinct l
  by_cases hl : l ∈ targets.map Target.label
  · obtain ⟨t, ht, htl⟩ := List.mem_map.mp hl
    exact (Assembly.entry_eq_iff.mp (hmem t ht htl)).1
  · exact (Assembly.entry_eq_iff.mp (hout hl)).1

theorem clean_unknownDependencies (distinct : (targets.map Target.label).Nodup) :
    (unknownDependencies targets).Clean := by
  intro l x hx
  rw [lowered_unknownDependencies distinct] at hx
  cases hx

theorem Schedule.settled (h : Schedule targets visits) :
    Settled project rules targets
      (run project rules (unknownDependencies targets) visits) := by
  have hclean := clean_unknownDependencies h.distinct
  refine ⟨clean_run hclean visits, fun t ht => ?_, fun l hl => ?_⟩
  · exact settled_prefix project rules h (unknownDependencies targets) hclean
      (fun t ht => (entry_unknownDependencies h.distinct t.label).1 t ht rfl)
      (List.append_nil visits).symm t (h.perm.mem_iff.mpr ht)
  · rw [entry_run_of_notMem project rules (by rwa [(h.perm.map Target.label).mem_iff])]
    exact (entry_unknownDependencies h.distinct l).2 hl

/-- The outcome of assembling is settled. -/
theorem settled_of_assemble (distinct : (targets.map Target.label).Nodup)
    (h : assemble project rules targets = .ok a) : Settled project rules targets a := by
  obtain ⟨visits, hschedule, rfl⟩ := exists_schedule distinct h
  exact hschedule.settled

end BuildGraph
