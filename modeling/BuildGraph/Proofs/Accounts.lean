import BuildGraph.Proofs.Outcomes
import BuildGraph.Verb.Stated

/-!
# Every target is accounted for

An assembly says of each target that it was lowered, that it failed or that it was skipped, and
never two of these (`accounted_of_assemble`). A target is skipped if and only if something that it
depends on, near or far, failed; the failure given as the reason is found by going from each target
to its first dependency that was not lowered.
-/

namespace BuildGraph

open Relation

variable {project : Project} {rules : RuleTable} {targets : List Target} {a : Assembly}

/-- The first declared dependency that failed or was skipped. -/
def Target.obstacle? (a : Assembly) (t : Target) : Option Label :=
  t.dependencies.find? fun d => a.failures.contains d || a.skipped.contains d

/-- The failed target that one comes to from a target by going, at each step, to its first
dependency that failed or was skipped. -/
inductive RootCause (targets : List Target) (a : Assembly) : Label → Label → Prop
  | failed {t : Target} {d : Label} : t ∈ targets → t.obstacle? a = some d →
      a.failures.contains d = true → RootCause targets a t.label d
  | skipped {t : Target} {d cause : Label} : t ∈ targets → t.obstacle? a = some d →
      a.skipped.contains d = true → RootCause targets a d cause → RootCause targets a t.label cause

/-- How an assembly accounts for targets. -/
structure Accounted (targets : List Target) (a : Assembly) : Prop where
  /-- Every target was lowered, failed or was skipped, and only one of these. -/
  one : ∀ l ∈ targets.map Target.label,
    (a.lowered.contains l ∧ ¬ a.failures.contains l ∧ ¬ a.skipped.contains l) ∨
    (¬ a.lowered.contains l ∧ a.failures.contains l ∧ ¬ a.skipped.contains l) ∨
    (¬ a.lowered.contains l ∧ ¬ a.failures.contains l ∧ a.skipped.contains l)
  /-- Nothing else is recorded. -/
  only : ∀ l, a.lowered.contains l ∨ a.failures.contains l ∨ a.skipped.contains l →
    l ∈ targets.map Target.label
  exports : ∀ l, (a.exports? l).isSome = a.lowered.contains l
  bindings : ∀ l, (a.bindings? l).isSome = a.lowered.contains l
  /-- A dependency on something that is no target is a failure. -/
  unknown : ∀ t ∈ targets, (∃ d ∈ t.dependencies, d ∉ targets.map Target.label) →
    ∃ d ∈ t.dependencies, d ∉ targets.map Target.label ∧
      a.failures.get? t.label = some ⟨t.label, .unknownDependency d⟩
  /-- Any other target is skipped exactly if something that it depends on failed. -/
  skipped_iff : ∀ t ∈ targets, (∀ d ∈ t.dependencies, d ∈ targets.map Target.label) →
    (a.skipped.contains t.label ↔
      ∃ d, TransGen (DependsOn targets) t.label d ∧ a.failures.contains d)
  /-- The reason for skipping a target is a failure that it depends on. -/
  cause : ∀ l cause, a.skipped.get? l = some cause →
    a.failures.contains cause ∧ TransGen (DependsOn targets) l cause ∧ RootCause targets a l cause
  /-- Whatever a lowered target depends on was lowered. -/
  lowered : ∀ t ∈ targets, a.lowered.contains t.label → ∀ d ∈ t.dependencies, a.lowered.contains d

/-! ## Obstacles -/

/-- What blocks a target is the first dependency that failed or was skipped. -/
theorem exists_obstacle {t : Target} {cause : Label} (h : a.blocker? t.dependencies = some cause) :
    ∃ d, t.obstacle? a = some d ∧ a.blockerOf? d = some cause := by
  rw [Target.obstacle?]
  generalize t.dependencies = dependencies at h ⊢
  induction dependencies with
  | nil => cases h
  | cons d rest ih =>
    rw [Assembly.blocker?, List.findSome?_cons] at h
    cases hd : a.blockerOf? d with
    | some c =>
      rw [hd] at h
      refine ⟨d, List.find?_cons_of_pos ?_, hd.trans h⟩
      rcases blockerOf?_eq_some hd with hs | ⟨hf, -⟩
      · simp [SortedMap.contains_of_get? hs]
      · simp [hf]
    | none =>
      rw [hd] at h
      obtain ⟨hf, hs⟩ := blockerOf?_eq_none.mp hd
      rw [List.find?_cons_of_neg (by simp [hf, hs])]
      exact ih h

theorem Target.mem_of_obstacle? {t : Target} {d : Label} (h : t.obstacle? a = some d) :
    d ∈ t.dependencies :=
  List.mem_of_find?_eq_some h

theorem RootCause.spec {l cause : Label} (h : RootCause targets a l cause) :
    a.failures.contains cause = true ∧ TransGen (DependsOn targets) l cause := by
  induction h with
  | failed ht hd hf => exact ⟨hf, .single ⟨_, ht, rfl, Target.mem_of_obstacle? hd⟩⟩
  | skipped ht hd _ _ ih => exact ⟨ih.1, .head ⟨_, ht, rfl, Target.mem_of_obstacle? hd⟩ ih.2⟩

/-! ## Accounts of settled assemblies -/

namespace Settled

variable {t : Target}

/-- A target with a dependency that failed or was skipped itself failed or was skipped. -/
theorem blocked_of_dependsOn (h : Settled project rules targets a) {l d : Label}
    (hld : DependsOn targets l d)
    (hd : a.failures.contains d = true ∨ a.skipped.contains d = true) :
    a.failures.contains l = true ∨ a.skipped.contains l = true := by
  obtain ⟨t, ht, rfl, hmem⟩ := hld
  have hne := blocker?_ne_none hmem hd
  simp only [SortedMap.contains]
  rcases h.entry_cases ht with
    ⟨x, edges, -, hb, -⟩ | ⟨d, -, he⟩ | ⟨e, -, hb, -⟩ | ⟨cause, -, -, he⟩
  · exact absurd hb hne
  · exact .inl (by simp [(Assembly.entry_eq_iff.mp he).2.1])
  · exact absurd hb hne
  · exact .inr (by simp [(Assembly.entry_eq_iff.mp he).2.2])

/-- A target of which something failed, near or far, is not lowered. -/
theorem blocked_of_transGen (h : Settled project rules targets a) {l d : Label}
    (hld : TransGen (DependsOn targets) l d) (hd : a.failures.contains d = true) :
    a.failures.contains l = true ∨ a.skipped.contains l = true := by
  induction hld using TransGen.head_induction_on with
  | single hlm => exact h.blocked_of_dependsOn hlm (.inl hd)
  | head hlm _ ih => exact h.blocked_of_dependsOn hlm ih

/-- If no dependency of the target is unknown, it is skipped. -/
theorem skipped_of_blocked (h : Settled project rules targets a) (ht : t ∈ targets)
    (hknown : t.unknown? targets = none) {d : Label} (hmem : d ∈ t.dependencies)
    (hd : a.failures.contains d = true ∨ a.skipped.contains d = true) :
    a.skipped.contains t.label = true := by
  have hne := blocker?_ne_none hmem hd
  rcases h.entry_cases ht with
    ⟨x, edges, -, hb, -⟩ | ⟨d, hu, -⟩ | ⟨e, -, hb, -⟩ | ⟨cause, -, -, he⟩
  · exact absurd hb hne
  · rw [hknown] at hu
    cases hu
  · exact absurd hb hne
  · exact SortedMap.contains_of_get? (Assembly.entry_eq_iff.mp he).2.2

/-- The recorded cause is the one found by following first obstacles. -/
theorem rootCause {visits : List Target} (h : Settled project rules targets a)
    (hschedule : Schedule targets visits) {l cause : Label}
    (hcause : a.skipped.get? l = some cause) : RootCause targets a l cause := by
  have hl := h.mem_labels_of_skipped (SortedMap.contains_of_get? hcause)
  obtain ⟨t, ht, rfl⟩ := List.mem_map.mp hl
  refine Preceded.induction (P := fun t => ∀ cause, a.skipped.get? t.label = some cause →
    RootCause targets a t.label cause) hschedule.preceded ?_ t (hschedule.perm.mem_iff.mpr ht)
    cause hcause
  -- the first obstacle was visited before, so if it was skipped, its own cause is the right one
  intro t ht ih cause hcause
  replace ht := hschedule.perm.mem_iff.mp ht
  have hblocker : a.blocker? t.dependencies = some cause := by
    rcases h.entry_cases ht with
      ⟨x, edges, -, -, -, he⟩ | ⟨d, -, he⟩ | ⟨e, -, -, -, he⟩ | ⟨c, -, hb, he⟩ <;>
    · have hs := (Assembly.entry_eq_iff.mp he).2.2
      rw [hcause] at hs
      cases hs
      try exact hb
  obtain ⟨d, hobstacle, hd⟩ := exists_obstacle hblocker
  rcases blockerOf?_eq_some hd with hskipped | ⟨hfailed, rfl⟩
  · have hcontains := SortedMap.contains_of_get? hskipped
    obtain ⟨u, hu, rfl⟩ := List.mem_map.mp (h.mem_labels_of_skipped hcontains)
    have hdep := Target.mem_of_obstacle? hobstacle
    exact .skipped ht hobstacle hcontains (ih u ⟨hu, hdep⟩ cause hskipped)
  · exact .failed ht hobstacle hfailed

/-- An unknown dependency is the failure that its target is recorded with. -/
theorem unknown_failure (h : Settled project rules targets a) (ht : t ∈ targets)
    (hunknown : ∃ d ∈ t.dependencies, d ∉ targets.map Target.label) :
    ∃ d ∈ t.dependencies, d ∉ targets.map Target.label ∧
      a.failures.get? t.label = some ⟨t.label, .unknownDependency d⟩ := by
  have hne : t.unknown? targets ≠ none := by
    intro hnone
    obtain ⟨d, hd, hnot⟩ := hunknown
    exact hnot (Target.unknown?_eq_none.mp hnone d hd)
  rcases h.entry_cases ht with
    ⟨_, _, hnone, _⟩ | ⟨d, hd, he⟩ | ⟨_, hnone, _⟩ | ⟨_, hnone, _⟩
  · exact absurd hnone hne
  · obtain ⟨hmem, hnot⟩ := Target.unknown?_eq_some hd
    exact ⟨d, hmem, hnot, (Assembly.entry_eq_iff.mp he).2.1⟩
  · exact absurd hnone hne
  · exact absurd hnone hne

/-- If something failed that a target depends on, and none of its dependencies is unknown, it is
skipped. -/
theorem skipped_of_transGen (h : Settled project rules targets a)
    (distinct : (targets.map Target.label).Nodup) (ht : t ∈ targets)
    (hknown : t.unknown? targets = none) {d : Label}
    (htd : TransGen (DependsOn targets) t.label d) (hd : a.failures.contains d = true) :
    a.skipped.contains t.label = true := by
  obtain ⟨m, ⟨u, hu, hut, hm⟩, hmd⟩ := TransGen.head'_iff.mp htd
  obtain rfl := eq_of_label_eq distinct hu ht hut
  refine h.skipped_of_blocked ht hknown hm ?_
  rcases reflTransGen_iff_eq_or_transGen.mp hmd with rfl | hmd
  · exact .inl hd
  · exact h.blocked_of_transGen hmd hd

theorem accounted {visits : List Target} (h : Settled project rules targets a)
    (hschedule : Schedule targets visits) : Accounted targets a where
  one l hl := by
    obtain ⟨t, ht, rfl⟩ := List.mem_map.mp hl
    exact h.one ht
  only l hl := by
    rcases hl with hl | hl | hl
    · exact h.mem_labels_of_lowered hl
    · exact h.mem_labels_of_failures hl
    · exact h.mem_labels_of_skipped hl
  exports l := by simp [Assembly.exports?, SortedMap.contains]
  bindings l := by simp [bindings?_eq, SortedMap.contains]
  unknown t ht hunknown := h.unknown_failure ht hunknown
  skipped_iff t ht hknown := by
    constructor
    · intro hskipped
      obtain ⟨cause, hcause⟩ := SortedMap.contains_eq_true.mp hskipped
      obtain ⟨hf, hdep⟩ := (h.rootCause hschedule hcause).spec
      exact ⟨cause, hdep, hf⟩
    · rintro ⟨d, htd, hd⟩
      have hnone := Target.unknown?_eq_none.mpr hknown
      exact h.skipped_of_transGen hschedule.distinct ht hnone htd hd
  cause l cause hl := by
    have hroot := h.rootCause hschedule hl
    exact ⟨hroot.spec.1, hroot.spec.2, hroot⟩
  lowered t ht hlowered d hd := h.lowered_dependency ht hlowered hd

end Settled

/-- Whatever the targets, the project and the rules: an assembly accounts for every target. -/
theorem accounted_of_assemble (distinct : (targets.map Target.label).Nodup)
    (h : assemble project rules targets = .ok a) : Accounted targets a := by
  obtain ⟨visits, hschedule, rfl⟩ := exists_schedule distinct h
  exact hschedule.settled.accounted hschedule

namespace Sample

/-- A package for samples. -/
def package : PackagePath := ⟨"fw", by decide⟩

def base : Label := ⟨package, "base", by decide⟩

def lost : Label := ⟨package, "lost", by decide⟩

def mid : Label := ⟨package, "mid", by decide⟩

def leaf : Label := ⟨package, "leaf", by decide⟩

def orphan : Label := ⟨package, "orphan", by decide⟩

def left : Label := ⟨package, "left", by decide⟩

def right : Label := ⟨package, "right", by decide⟩

def top : Label := ⟨package, "top", by decide⟩

/-- A target without dependencies. -/
def root : Target := Stated.target { label := base, exports := announcement base }

/-- A target that names an environment. -/
def missing : Target := Stated.target { label := lost, environment := some "missing" }

/-- A target that depends on both. -/
def consumer : Target := Stated.target { label := mid, dependencies := [base, lost] }

/-- Consumers listed before what they consume; `orphan` depends on no target at all. -/
def declared : List Target :=
  [Stated.target { label := leaf, dependencies := [base, mid, base] },
    consumer,
    Stated.target { label := orphan, dependencies := [⟨package, "gone", by decide⟩] },
    missing,
    root]

/-- A project without environments. -/
def bare : Project := { environments := .empty }

end Sample

theorem accounted_sample : (Sample.declared.map Target.label).Nodup ∧
    ∃ a, assemble Sample.bare .empty Sample.declared = .ok a ∧
      a.skipped.get? Sample.leaf = some Sample.lost ∧ Accounted Sample.declared a := by
  have distinct : (Sample.declared.map Target.label).Nodup := by decide
  have hleaf : (assemble Sample.bare .empty Sample.declared).toOption.map
      (·.skipped.get? Sample.leaf) = some (some Sample.lost) := by decide
  cases h : assemble Sample.bare .empty Sample.declared with
  | error e =>
    rw [h] at hleaf
    cases hleaf
  | ok a =>
    rw [h] at hleaf
    exact ⟨distinct, a, rfl, Option.some.inj hleaf, accounted_of_assemble distinct h⟩

end BuildGraph
