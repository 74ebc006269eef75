import BuildGraph.Proofs.Blocks
import BuildGraph.Proofs.Locality
import Mathlib.Data.List.TakeWhile

/-!
# The order of listing

The targets of a project can be listed in any order. The same ones are lowered then, in the same way
(`lowered_of_perm`). But of two targets neither of which depends on the other, the order decides
which is visited first: a target that is listed first is visited after all that do not depend on it
(`transGen_of_visitOrder_cons`). So a target is visited before another one in every listing exactly
if that one depends on it (`forall_mem_visitedBefore_iff`).
-/

namespace BuildGraph

open Relation

variable {project : Project} {rules : RuleTable} {targets listed rest done after : List Target}
variable {a : Assembly} {t u : Target}

/-- The labels of the targets that are visited before the target of a label. -/
def visitedBefore (targets : List Target) (l : Label) : List Label :=
  ((visitOrder targets).map Target.label).takeWhile (· ≠ l)

/-! ## Listings -/

theorem DependsOn.transGen_iff_of_perm (hperm : listed.Perm targets) {l d : Label} :
    TransGen (DependsOn listed) l d ↔ TransGen (DependsOn targets) l d :=
  ⟨TransGen.mono (fun _ _ => DependsOn.mono hperm.subset) l d,
    TransGen.mono (fun _ _ => DependsOn.mono hperm.symm.subset) l d⟩

theorem schedule_of_perm (distinct : (targets.map Target.label).Nodup)
    (acyclic : ∀ l, ¬ TransGen (DependsOn targets) l l) (hperm : listed.Perm targets) :
    Schedule listed (visitOrder listed) := by
  have hdistinct : (listed.map Target.label).Nodup :=
    (hperm.map Target.label).nodup_iff.mpr distinct
  have hacyclic : ∀ l, ¬ TransGen (DependsOn listed) l l := fun l hl =>
    acyclic l ((DependsOn.transGen_iff_of_perm hperm).mp hl)
  obtain ⟨order, horder⟩ := Graph.exists_order_iff.mpr ((acyclic_iff hdistinct).mpr hacyclic)
  rw [visitOrder, horder]
  exact schedule_of_order hdistinct horder

/-- The targets are lowered in the same way however they are listed. -/
theorem lowered_of_perm (distinct : (targets.map Target.label).Nodup)
    (h : assemble project rules targets = .ok a) (hperm : listed.Perm targets) :
    ∃ b, assemble project rules listed = .ok b ∧ b.lowered = a.lowered := by
  have hlabels : ∀ {l}, l ∈ listed.map Target.label ↔ l ∈ targets.map Target.label :=
    (hperm.map Target.label).mem_iff
  obtain ⟨hdistinct, b, hb, hentry⟩ :=
    exists_assemble_part distinct h hperm.subperm fun _ _ _ _ hd => hlabels.mpr hd
  refine ⟨b, hb, SortedMap.ext_get? fun l => ?_⟩
  by_cases hl : l ∈ listed.map Target.label
  · obtain ⟨t, ht, rfl⟩ := List.mem_map.mp hl
    exact congrArg Entry.lowering (hentry t ht).symm
  · have hblank := (settled_of_assemble distinct h).blank l (hlabels.not.mp hl)
    have hblank' := (settled_of_assemble hdistinct hb).blank l hl
    exact congrArg Entry.lowering (hblank'.trans hblank.symm)

/-! ## What is visited before a target -/

theorem notMem_visitedBefore_self (targets : List Target) (l : Label) :
    l ∉ visitedBefore targets l := fun hl => by simpa using List.mem_takeWhile_imp hl

/-- The label of a target parts the labels of the visits where the target parts the visits. -/
theorem visitedBefore_eq (h : Schedule targets (done ++ t :: rest))
    (hvisits : visitOrder targets = done ++ t :: rest) :
    visitedBefore targets t.label = done.map Target.label := by
  have hnot : ∀ l ∈ done.map Target.label, l ≠ t.label := by
    rintro l hl rfl
    exact h.notMem_rest hl (by simp)
  rw [visitedBefore, hvisits, List.map_append, List.takeWhile_append_of_pos (by simpa using hnot),
    List.map_cons, List.takeWhile_cons_of_neg (by simp), List.append_nil]

theorem exists_visitedBefore (h : Schedule targets (visitOrder targets)) (ht : t ∈ targets) :
    ∃ done rest, visitOrder targets = done ++ t :: rest ∧ Schedule targets (done ++ t :: rest) ∧
      visitedBefore targets t.label = done.map Target.label := by
  obtain ⟨done, rest, hvisits⟩ := List.append_of_mem (h.perm.mem_iff.mpr ht)
  have hschedule := hvisits ▸ h
  exact ⟨done, rest, hvisits, hschedule, visitedBefore_eq hschedule hvisits⟩

/-- Of two targets one is visited before the other. -/
theorem mem_visitedBefore_iff_notMem (h : Schedule targets (visitOrder targets)) (ht : t ∈ targets)
    (hu : u ∈ targets) (hne : t.label ≠ u.label) :
    u.label ∈ visitedBefore targets t.label ↔ t.label ∉ visitedBefore targets u.label := by
  obtain ⟨done, rest, hvisits, hschedule, hbefore⟩ := exists_visitedBefore h ht
  rw [hbefore]
  constructor
  · intro hmem
    -- then the visits up to `u` are among those before `t`
    obtain ⟨u', hu', hlabel⟩ := List.mem_map.mp hmem
    have humem : u' ∈ targets := h.perm.mem_iff.mp (hvisits ▸ List.mem_append_left _ hu')
    obtain rfl := eq_of_label_eq h.distinct humem hu hlabel
    obtain ⟨first, between, rfl⟩ := List.append_of_mem hu'
    rw [List.append_assoc, List.cons_append] at hvisits hschedule
    rw [visitedBefore_eq hschedule hvisits]
    exact fun hmem' => hschedule.notMem_rest hmem' (by simp)
  · intro hnot
    have hmem : u ∈ done ++ t :: rest := hschedule.perm.mem_iff.mpr hu
    rcases List.mem_append.mp hmem with hmem | hmem
    · exact List.mem_map_of_mem hmem
    · rcases List.mem_cons.mp hmem with rfl | hmem
      · exact absurd rfl hne
      · obtain ⟨between, last, rfl⟩ := List.append_of_mem hmem
        rw [← List.cons_append, ← List.append_assoc] at hvisits hschedule
        rw [visitedBefore_eq hschedule hvisits] at hnot
        simp at hnot

/-- What a target depends on is visited before it. -/
theorem mem_visitedBefore_of_transGen (h : Schedule targets (visitOrder targets)) (ht : t ∈ targets)
    (hu : u ∈ targets) (htu : TransGen (DependsOn targets) t.label u.label) :
    u.label ∈ visitedBefore targets t.label := by
  obtain ⟨done, rest, hvisits, hschedule, hbefore⟩ := exists_visitedBefore h ht
  rw [hbefore]
  exact hschedule.mem_done_of_transGen htu (List.mem_map_of_mem hu)

/-- What is visited after the target listed first depends on it. -/
theorem transGen_of_visitOrder_cons (distinct : ((t :: rest).map Target.label).Nodup)
    (h : visitOrder (t :: rest) = done ++ t :: after) (hu : u ∈ after) :
    TransGen (DependsOn (t :: rest)) u.label t.label := by
  rw [visitOrder] at h
  cases horder : (dependencyGraph (t :: rest)).order with
  | error v => simp [horder] at h
  | ok order =>
    rw [horder] at h
    obtain ⟨before, later, rfl, rfl, hlater⟩ := List.map_eq_append_iff.mp h
    obtain ⟨i, later, rfl, hi, rfl⟩ := List.map_eq_cons_iff.mp hlater
    obtain ⟨j, hj, rfl⟩ := List.mem_map.mp hu
    have hfirst : i = ⟨0, by simp⟩ := get_label_injective distinct (congrArg Target.label hi)
    have harcs := Graph.transGen_of_order_first (congrArg Fin.val hfirst) horder j hj
    have htrans := transGen_of_arcs distinct harcs
    rwa [hi] at htrans

/-- A target is visited before another one in every listing exactly if that one depends on it. -/
theorem forall_mem_visitedBefore_iff (distinct : (targets.map Target.label).Nodup)
    (acyclic : ∀ l, ¬ TransGen (DependsOn targets) l l) (ht : t ∈ targets) (hu : u ∈ targets)
    (hne : t.label ≠ u.label) :
    (∀ listed, listed.Perm targets → u.label ∈ visitedBefore listed t.label) ↔
      TransGen (DependsOn targets) t.label u.label := by
  constructor
  · intro hall
    -- list `u` first: what is visited after it all the same depends on it
    obtain ⟨before, after, rfl⟩ := List.append_of_mem hu
    have hperm : (u :: (before ++ after)).Perm (before ++ u :: after) := List.perm_middle.symm
    have h := schedule_of_perm distinct acyclic hperm
    have ht' := hperm.mem_iff.mpr ht
    obtain ⟨done, later, hvisits, hschedule, hbefore⟩ := exists_visitedBefore h (t := u) (by simp)
    have hnot := (mem_visitedBefore_iff_notMem h ht' (by simp) hne).mp (hall _ hperm)
    rw [hbefore] at hnot
    have hafter : t ∈ later := by
      have hmem := hschedule.perm.mem_iff.mpr ht'
      simp only [List.mem_append, List.mem_cons] at hmem
      rcases hmem with hmem | rfl | hmem
      · exact absurd (List.mem_map_of_mem hmem) hnot
      · exact absurd rfl hne
      · exact hmem
    exact (DependsOn.transGen_iff_of_perm hperm).mp
      (transGen_of_visitOrder_cons h.distinct hvisits hafter)
  · intro htu listed hperm
    exact mem_visitedBefore_of_transGen (schedule_of_perm distinct acyclic hperm)
      (hperm.mem_iff.mpr ht) (hperm.mem_iff.mpr hu)
      ((DependsOn.transGen_iff_of_perm hperm).mpr htu)

/-- It is visited before it in no listing exactly if it depends on it. -/
theorem forall_notMem_visitedBefore_iff (distinct : (targets.map Target.label).Nodup)
    (acyclic : ∀ l, ¬ TransGen (DependsOn targets) l l) (ht : t ∈ targets) (hu : u ∈ targets)
    (hne : t.label ≠ u.label) :
    (∀ listed, listed.Perm targets → u.label ∉ visitedBefore listed t.label) ↔
      TransGen (DependsOn targets) u.label t.label := by
  rw [← forall_mem_visitedBefore_iff distinct acyclic hu ht hne.symm]
  refine forall₂_congr fun listed hperm => ?_
  exact (mem_visitedBefore_iff_notMem (schedule_of_perm distinct acyclic hperm)
    (hperm.mem_iff.mpr hu) (hperm.mem_iff.mpr ht) hne.symm).symm

end BuildGraph
