import BuildGraph.Proofs.Settled

/-!
# Outcomes of targets

A settled assembly gives every target one of four outcomes, each for its own reason
(`Settled.entry_cases`), and records nothing else. A target is lowered only if nothing blocks it, so
whatever a lowered target depends on was lowered too (`Settled.lowered_of_transGen`).
-/

namespace BuildGraph

open Relation

variable {project : Project} {rules : RuleTable} {targets : List Target} {a : Assembly}

/-! ## Blockers -/

theorem blockerOf?_eq_some {l cause : Label} (h : a.blockerOf? l = some cause) :
    a.skipped.get? l = some cause ∨ (a.failures.contains l = true ∧ cause = l) := by
  rw [Assembly.blockerOf?] at h
  split at h
  next hs => exact .inl (hs.trans h)
  next =>
    split at h
    next hf => exact .inr ⟨hf, (Option.some.inj h).symm⟩
    next => cases h

theorem blockerOf?_eq_none {l : Label} :
    a.blockerOf? l = none ↔ a.failures.contains l = false ∧ a.skipped.contains l = false := by
  constructor
  · intro h
    rw [Assembly.blockerOf?] at h
    split at h
    next => cases h
    next hs =>
      split at h
      next => cases h
      next hf => exact ⟨by simpa using hf, SortedMap.contains_eq_false.mpr hs⟩
  · rintro ⟨hf, hs⟩
    have hnone := SortedMap.contains_eq_false.mp hs
    rw [Assembly.blockerOf?, hnone, hf]
    rfl

theorem blocker?_eq_none {dependencies : List Label} : a.blocker? dependencies = none ↔
    ∀ d ∈ dependencies, a.failures.contains d = false ∧ a.skipped.contains d = false := by
  simp only [Assembly.blocker?, List.findSome?_eq_none_iff, blockerOf?_eq_none]

theorem blocker?_ne_none {dependencies : List Label} {d : Label} (hmem : d ∈ dependencies)
    (hd : a.failures.contains d = true ∨ a.skipped.contains d = true) :
    a.blocker? dependencies ≠ none := by
  intro hnone
  obtain ⟨hf, hs⟩ := blocker?_eq_none.mp hnone d hmem
  simp [hf, hs] at hd

/-! ## Bindings -/

/-- What a lowered target inherited can always be applied to nothing. -/
theorem bindings?_eq (a : Assembly) (l : Label) :
    a.bindings? l = (a.lowered.get? l).map fun x => x.inherited.bindings := by
  rw [Assembly.bindings?]
  cases a.lowered.get? l with
  | none => rfl
  | some x => simp [Delta.apply_empty, Except.toOption]

theorem bindings?_of_lowered {l : Label} {x : Lowering} (h : a.lowered.get? l = some x) :
    a.bindings? l = some x.inherited.bindings := by
  rw [bindings?_eq, h]
  rfl

theorem exports?_of_lowered {l : Label} {x : Lowering} (h : a.lowered.get? l = some x) :
    a.exports? l = some x.exports := by
  rw [Assembly.exports?, h]
  rfl

/-! ## Outcomes -/

theorem Assembly.isSuccess_iff :
    a.isSuccess = true ↔ (∀ l, a.failures.get? l = none) ∧ ∀ l, a.skipped.get? l = none := by
  rw [Assembly.isSuccess, Bool.and_eq_true, SortedMap.isEmpty_iff, SortedMap.isEmpty_iff]

namespace Settled

variable {t : Target}

/-- What a target is recorded with, and why: lowered, without one of its dependencies, tried in vain
or skipped. -/
theorem entry_cases (h : Settled project rules targets a) (ht : t ∈ targets) :
    (∃ x edges, t.unknown? targets = none ∧ a.blocker? t.dependencies = none ∧
      (a.attempt project rules t).1 = .ok (x, edges) ∧ a.entry t.label = ⟨some x, none, none⟩) ∨
    (∃ d, t.unknown? targets = some d ∧
      a.entry t.label = ⟨none, some ⟨t.label, .unknownDependency d⟩, none⟩) ∨
    (∃ e, t.unknown? targets = none ∧ a.blocker? t.dependencies = none ∧
      (a.attempt project rules t).1 = .error e ∧ a.entry t.label = ⟨none, some e, none⟩) ∨
    (∃ cause, t.unknown? targets = none ∧ a.blocker? t.dependencies = some cause ∧
      a.entry t.label = ⟨none, none, some cause⟩) := by
  have hentry := h.entry t ht
  rw [Assembly.outcome, Target.unknownFailure?] at hentry
  cases hu : t.unknown? targets with
  | some d =>
    rw [hu] at hentry
    exact .inr (.inl ⟨d, rfl, hentry⟩)
  | none =>
    rw [hu, Option.map_none] at hentry
    simp only [Assembly.verdict] at hentry
    cases hb : a.blocker? t.dependencies with
    | some cause =>
      rw [hb] at hentry
      exact .inr (.inr (.inr ⟨cause, rfl, rfl, hentry⟩))
    | none =>
      rw [hb] at hentry
      cases hattempt : (a.attempt project rules t).1 with
      | error e =>
        rw [hattempt] at hentry
        exact .inr (.inr (.inl ⟨e, rfl, rfl, rfl, hentry⟩))
      | ok result =>
        rw [hattempt] at hentry
        exact .inl ⟨result.1, result.2, rfl, rfl, rfl, hentry⟩

/-- Only labels of targets have entries. -/
theorem mem_labels (h : Settled project rules targets a) {l : Label} (hl : a.entry l ≠ .blank) :
    l ∈ targets.map Target.label := by
  by_contra hnot
  exact hl (h.blank l hnot)

theorem mem_labels_of_failures (h : Settled project rules targets a) {l : Label}
    (hl : a.failures.contains l = true) : l ∈ targets.map Target.label := by
  refine h.mem_labels fun hblank => ?_
  simp [SortedMap.contains, (Assembly.entry_eq_iff.mp hblank).2.1, Entry.blank] at hl

theorem mem_labels_of_skipped (h : Settled project rules targets a) {l : Label}
    (hl : a.skipped.contains l = true) : l ∈ targets.map Target.label := by
  refine h.mem_labels fun hblank => ?_
  simp [SortedMap.contains, (Assembly.entry_eq_iff.mp hblank).2.2, Entry.blank] at hl

theorem mem_labels_of_lowered (h : Settled project rules targets a) {l : Label}
    (hl : a.lowered.contains l = true) : l ∈ targets.map Target.label := by
  refine h.mem_labels fun hblank => ?_
  simp [SortedMap.contains, (Assembly.entry_eq_iff.mp hblank).1, Entry.blank] at hl

theorem one (h : Settled project rules targets a) (ht : t ∈ targets) :
    (a.lowered.contains t.label ∧ ¬ a.failures.contains t.label ∧ ¬ a.skipped.contains t.label) ∨
    (¬ a.lowered.contains t.label ∧ a.failures.contains t.label ∧ ¬ a.skipped.contains t.label) ∨
    (¬ a.lowered.contains t.label ∧ ¬ a.failures.contains t.label ∧
      a.skipped.contains t.label) := by
  simp only [SortedMap.contains]
  rcases h.entry_cases ht with
    ⟨x, edges, -, -, -, he⟩ | ⟨d, -, he⟩ | ⟨e, -, -, -, he⟩ | ⟨cause, -, -, he⟩ <;>
  · obtain ⟨hl, hf, hs⟩ := Assembly.entry_eq_iff.mp he
    simp [hl, hf, hs]

/-- A target that failed or was skipped was not lowered. -/
theorem not_lowered (h : Settled project rules targets a) (ht : t ∈ targets)
    (hother : a.failures.contains t.label = true ∨ a.skipped.contains t.label = true) :
    a.lowered.contains t.label = false := by
  rcases h.one ht with ⟨-, hf, hs⟩ | ⟨hnot, -⟩ | ⟨hnot, -⟩
  · exact absurd hother (not_or.mpr ⟨hf, hs⟩)
  · exact Bool.eq_false_iff.mpr hnot
  · exact Bool.eq_false_iff.mpr hnot

/-- If no failure is recorded, every target was lowered. -/
theorem lowered_of_isSuccess (h : Settled project rules targets a) (hsuccess : a.isSuccess = true)
    (ht : t ∈ targets) : a.lowered.contains t.label = true := by
  obtain ⟨hfailures, hskipped⟩ := Assembly.isSuccess_iff.mp hsuccess
  rcases h.one ht with ⟨hlowered, -⟩ | ⟨-, hf, -⟩ | ⟨-, -, hs⟩
  · exact hlowered
  · simp [SortedMap.contains, hfailures] at hf
  · simp [SortedMap.contains, hskipped] at hs

/-- A lowered target is one that nothing blocks and that was tried with success. -/
theorem attempt_of_lowered (h : Settled project rules targets a) (ht : t ∈ targets) {x : Lowering}
    (hx : a.lowered.get? t.label = some x) :
    ∃ edges, t.unknown? targets = none ∧ a.blocker? t.dependencies = none ∧
      (a.attempt project rules t).1 = .ok (x, edges) := by
  have hentry : ∀ {e : Entry}, a.entry t.label = e → e.lowering = some x := fun he =>
    (Assembly.entry_eq_iff.mp he).1.symm.trans hx
  rcases h.entry_cases ht with
    ⟨y, edges, hknown, hfree, hattempt, he⟩ | ⟨d, -, he⟩ | ⟨e, -, -, -, he⟩ | ⟨cause, -, -, he⟩
  · obtain rfl : y = x := Option.some.inj (hentry he)
    exact ⟨edges, hknown, hfree, hattempt⟩
  · cases hentry he
  · cases hentry he
  · cases hentry he

/-- The dependencies of a target that nothing blocks were lowered. -/
theorem lowered_of_free (h : Settled project rules targets a) (hknown : t.unknown? targets = none)
    (hfree : a.blocker? t.dependencies = none) {d : Label} (hd : d ∈ t.dependencies) :
    a.lowered.contains d = true := by
  obtain ⟨u, hu, rfl⟩ := List.mem_map.mp (Target.unknown?_eq_none.mp hknown d hd)
  obtain ⟨hf, hs⟩ := blocker?_eq_none.mp hfree u.label hd
  rcases h.one hu with ⟨hl, -⟩ | ⟨-, hl, -⟩ | ⟨-, -, hl⟩
  · exact hl
  · rw [hf] at hl
    cases hl
  · rw [hs] at hl
    cases hl

/-- Whatever a lowered target depends on was lowered. -/
theorem lowered_dependency (h : Settled project rules targets a) (ht : t ∈ targets)
    (hlowered : a.lowered.contains t.label = true) {d : Label} (hd : d ∈ t.dependencies) :
    a.lowered.contains d = true := by
  obtain ⟨x, hx⟩ := SortedMap.contains_eq_true.mp hlowered
  obtain ⟨edges, hknown, hfree, -⟩ := h.attempt_of_lowered ht hx
  exact h.lowered_of_free hknown hfree hd

theorem lowered_of_transGen (h : Settled project rules targets a) {l d : Label}
    (hld : TransGen (DependsOn targets) l d) (hl : a.lowered.contains l = true) :
    a.lowered.contains d = true := by
  induction hld with
  | single hstep =>
    obtain ⟨t, ht, rfl, hd⟩ := hstep
    exact h.lowered_dependency ht hl hd
  | tail _ hstep ih =>
    obtain ⟨t, ht, rfl, hd⟩ := hstep
    exact h.lowered_dependency ht ih hd

end Settled

end BuildGraph
