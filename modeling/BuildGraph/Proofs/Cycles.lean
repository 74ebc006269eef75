import BuildGraph.Proofs.Accounts

/-!
# Cycles of dependencies

A cycle of dependencies between targets is all that can keep them from being assembled, and the
target that is named instead of an assembly is on such a cycle (`assemble_eq_cycle_iff`), not merely
led to by one. What else is wrong with the targets, dependencies on no target or environments that
do not exist, has no part in this.
-/

namespace BuildGraph

open Relation

variable {project : Project} {rules : RuleTable} {targets : List Target}

/-- A target depends on another target. A dependency on something that is no target does not
count. -/
def Requires (targets : List Target) (l d : Label) : Prop :=
  DependsOn targets l d ∧ d ∈ targets.map Target.label

/-- Going from targets to targets that they depend on, one comes from this one back to it. -/
def OnCycle (targets : List Target) (l : Label) : Prop := TransGen (Requires targets) l l

/-- Only the end of a way along dependencies can be no target. -/
theorem transGen_requires_iff {l d : Label} : TransGen (Requires targets) l d ↔
    TransGen (DependsOn targets) l d ∧ d ∈ targets.map Target.label := by
  constructor
  · intro h
    refine ⟨TransGen.mono (fun _ _ hstep => hstep.1) l d h, ?_⟩
    obtain ⟨_, -, hstep⟩ := TransGen.tail'_iff.mp h
    exact hstep.2
  · rintro ⟨h, hd⟩
    induction h with
    | single hstep => exact .single ⟨hstep, hd⟩
    | tail _ hstep ih =>
      obtain ⟨t, ht, rfl, -⟩ := id hstep
      exact (ih (List.mem_map_of_mem ht)).tail ⟨hstep, hd⟩

theorem onCycle_iff {l : Label} : OnCycle targets l ↔ TransGen (DependsOn targets) l l := by
  rw [OnCycle, transGen_requires_iff, and_iff_left_iff_imp]
  intro h
  obtain ⟨_, ⟨t, ht, rfl, -⟩, -⟩ := TransGen.head'_iff.mp h
  exact List.mem_map_of_mem ht

/-- The target named instead of an assembly is on a cycle. -/
theorem onCycle_of_assemble (distinct : (targets.map Target.label).Nodup) {l : Label}
    (h : assemble project rules targets = .error (.cycle l)) : OnCycle targets l := by
  cases horder : (dependencyGraph targets).order with
  | ok order =>
    rw [assemble_eq_of_order horder (Graph.order_eq_ok horder).1] at h
    cases h
  | error v =>
    rw [assemble_eq_of_error horder] at h
    obtain rfl := CycleError.cycle.inj (Except.error.inj h)
    exact onCycle_iff.mpr (transGen_of_arcs distinct (Graph.order_eq_error horder))

/-- Assembling fails exactly if there is a cycle of dependencies between targets, and it names a
target on one. Otherwise there is an assembly. -/
theorem assemble_eq_cycle_iff (distinct : (targets.map Target.label).Nodup) :
    ((∃ l, assemble project rules targets = .error (.cycle l)) ↔ ∃ l, OnCycle targets l) ∧
    (∀ l, assemble project rules targets = .error (.cycle l) → OnCycle targets l) ∧
    ((∀ l, ¬ OnCycle targets l) → ∃ a, assemble project rules targets = .ok a) := by
  have hassembles : (∃ a, assemble project rules targets = .ok a) ↔ ∀ l, ¬ OnCycle targets l := by
    simp only [exists_assemble_iff distinct, onCycle_iff]
  refine ⟨⟨?_, ?_⟩, fun l hl => onCycle_of_assemble distinct hl, hassembles.mpr⟩
  · rintro ⟨l, hl⟩
    exact ⟨l, onCycle_of_assemble distinct hl⟩
  · rintro ⟨l, hl⟩
    cases h : assemble project rules targets with
    | ok a => exact absurd hl (hassembles.mp ⟨a, h⟩ l)
    | error e =>
      obtain ⟨l⟩ := e
      exact ⟨l, rfl⟩

namespace Sample

/-- `mid` and `lost` depend on each other. Besides, `mid` depends on something that is no target,
and the environment of `lost` does not exist. The cycle is reached from `leaf` and leads to `base`,
which are not on it. -/
def circle : List Target :=
  [Stated.target { label := leaf, dependencies := [mid] },
    Stated.target { label := lost, dependencies := [base, mid], environment := some "missing" },
    Stated.target { label := mid, dependencies := [orphan, lost, lost] },
    root]

end Sample

theorem assemble_eq_cycle_sample : (Sample.circle.map Target.label).Nodup ∧
    assemble Sample.bare .empty Sample.circle = .error (.cycle Sample.mid) ∧
    OnCycle Sample.circle Sample.mid := by
  have distinct : (Sample.circle.map Target.label).Nodup := by decide
  have h : assemble Sample.bare .empty Sample.circle = .error (.cycle Sample.mid) := by
    rfl
  exact ⟨distinct, h, (assemble_eq_cycle_iff distinct).2.1 _ h⟩

end BuildGraph
