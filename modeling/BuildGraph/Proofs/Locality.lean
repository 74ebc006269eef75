import BuildGraph.Proofs.Accounts
import Mathlib.Data.List.Find

/-!
# Locality

What becomes of a target depends on what it depends on and on nothing else: assembling only some of
the targets, in any order, gives each of them the same outcome, as long as no dependency between
targets is cut (`assemble_local`).

Both assemblies are settled. So they agree on a target as soon as they agree on its dependencies,
and the smaller list can be gone through producers first.
-/

namespace BuildGraph

open Relation

variable {project : Project} {rules : RuleTable} {targets part visits : List Target}
variable {a b : Assembly}

/-- Two assemblies say the same of a target. -/
structure Agree (a b : Assembly) (l : Label) : Prop where
  lowered : a.lowered.contains l = b.lowered.contains l
  exports : a.exports? l = b.exports? l
  bindings : a.bindings? l = b.bindings? l
  failure : a.failures.get? l = b.failures.get? l
  cause : a.skipped.get? l = b.skipped.get? l

theorem Agree.of_entry_eq {l : Label} (h : a.entry l = b.entry l) : Agree a b l := by
  have hl : a.lowered.get? l = b.lowered.get? l := congrArg Entry.lowering h
  refine ⟨?_, ?_, ?_, congrArg Entry.failure h, congrArg Entry.cause h⟩
  · rw [SortedMap.contains, SortedMap.contains, hl]
  · rw [Assembly.exports?, Assembly.exports?, hl]
  · rw [Assembly.bindings?, Assembly.bindings?, hl]

/-- Some of the targets, none of which depends on a target left out. -/
structure Closed (targets part : List Target) : Prop where
  subset : part ⊆ targets
  dependencies : ∀ t ∈ part, ∀ d ∈ t.dependencies, d ∈ targets.map Target.label →
    d ∈ part.map Target.label

theorem Closed.mem_labels_iff (h : Closed targets part) {t : Target} (ht : t ∈ part) {d : Label}
    (hd : d ∈ t.dependencies) : d ∈ part.map Target.label ↔ d ∈ targets.map Target.label := by
  constructor
  · intro hpart
    obtain ⟨u, hu, rfl⟩ := List.mem_map.mp hpart
    exact List.mem_map_of_mem (h.subset hu)
  · exact h.dependencies t ht d hd

theorem Closed.unknownFailure?_eq (h : Closed targets part) {t : Target} (ht : t ∈ part) :
    t.unknownFailure? targets = t.unknownFailure? part := by
  have hunknown : t.unknown? targets = t.unknown? part := by
    refine List.find?_congr fun d hd => ?_
    simp only [h.mem_labels_iff ht (List.mem_reverse.mp hd)]
  rw [Target.unknownFailure?, Target.unknownFailure?, hunknown]

/-- Two settled assemblies hold the same under the labels of the targets that both are about. -/
theorem Settled.entry_eq (ha : Settled project rules targets a)
    (hb : Settled project rules part b) (hclosed : Closed targets part)
    (hschedule : Schedule part visits) : ∀ t ∈ part, a.entry t.label = b.entry t.label := by
  intro t ht
  refine Preceded.induction (P := fun t => a.entry t.label = b.entry t.label)
    hschedule.preceded ?_ t (hschedule.perm.mem_iff.mpr ht)
  intro t ht ih
  replace ht := hschedule.perm.mem_iff.mp ht
  have hdeps : ∀ d ∈ t.dependencies, a.entry d = b.entry d := by
    intro d hd
    by_cases hmem : d ∈ part.map Target.label
    · obtain ⟨u, hu, rfl⟩ := List.mem_map.mp hmem
      exact ih u ⟨hu, hd⟩
    · -- what is not in the part is no target at all
      rw [hb.blank d hmem, ha.blank d ((hclosed.mem_labels_iff ht hd).not.mp hmem)]
  rw [ha.entry t (hclosed.subset ht), hb.entry t ht, Assembly.outcome, Assembly.outcome,
    hclosed.unknownFailure?_eq ht, Assembly.verdict_congr hdeps ha.clean hb.clean]

theorem DependsOn.mono (h : part ⊆ targets) {l d : Label} (hld : DependsOn part l d) :
    DependsOn targets l d := by
  obtain ⟨t, ht, hl, hd⟩ := hld
  exact ⟨t, h ht, hl, hd⟩

/-- A reordered part of the targets that keeps their dependencies can be assembled if all can, and the
same is held under the labels of the part then. -/
theorem exists_assemble_part (distinct : (targets.map Target.label).Nodup)
    (h : assemble project rules targets = .ok a) (hpart : part.Subperm targets)
    (hclosed : ∀ t ∈ part, ∀ d ∈ t.dependencies, d ∈ targets.map Target.label →
      d ∈ part.map Target.label) :
    (part.map Target.label).Nodup ∧ ∃ b, assemble project rules part = .ok b ∧
      ∀ t ∈ part, a.entry t.label = b.entry t.label := by
  have hdistinct : (part.map Target.label).Nodup := by
    obtain ⟨some, hperm, hsub⟩ := hpart
    exact (hperm.map Target.label).nodup_iff.mp (distinct.sublist (hsub.map Target.label))
  have hacyclic : ∀ l, ¬ TransGen (DependsOn part) l l := fun l hl =>
    (exists_assemble_iff distinct).mp ⟨a, h⟩ l
      (TransGen.mono (fun _ _ => DependsOn.mono hpart.subset) l l hl)
  obtain ⟨b, hb⟩ := (exists_assemble_iff hdistinct).mpr hacyclic
  obtain ⟨visits, hschedule, -⟩ := exists_schedule hdistinct hb
  refine ⟨hdistinct, b, hb, fun t ht => ?_⟩
  exact (settled_of_assemble distinct h).entry_eq (settled_of_assemble hdistinct hb)
    ⟨hpart.subset, hclosed⟩ hschedule t ht

/-- Assembling a reordered part of the targets that keeps their dependencies succeeds if assembling
all does, and says the same of each target of the part. -/
theorem assemble_local (distinct : (targets.map Target.label).Nodup)
    (h : assemble project rules targets = .ok a) (hpart : part.Subperm targets)
    (hclosed : ∀ t ∈ part, ∀ d ∈ t.dependencies, d ∈ targets.map Target.label →
      d ∈ part.map Target.label) :
    ∃ b, assemble project rules part = .ok b ∧ ∀ t ∈ part, Agree a b t.label := by
  obtain ⟨-, b, hb, hentry⟩ := exists_assemble_part distinct h hpart hclosed
  exact ⟨b, hb, fun t ht => .of_entry_eq (hentry t ht)⟩

/-- Without the targets that depend on it, and with its own dependencies listed after it, `mid` is
skipped for the same reason. -/
theorem assemble_local_sample :
    let part := [Sample.consumer, Sample.root, Sample.missing]
    (Sample.declared.map Target.label).Nodup ∧ part.Subperm Sample.declared ∧
    (∀ t ∈ part, ∀ d ∈ t.dependencies, d ∈ Sample.declared.map Target.label →
      d ∈ part.map Target.label) ∧
    ∃ a b, assemble Sample.bare .empty Sample.declared = .ok a ∧
      assemble Sample.bare .empty part = .ok b ∧
      a.skipped.get? Sample.mid = some Sample.lost ∧ ∀ t ∈ part, Agree a b t.label := by
  intro part
  have distinct : (Sample.declared.map Target.label).Nodup := by decide
  have hpart : part.Subperm Sample.declared :=
    ⟨[Sample.consumer, Sample.missing, Sample.root], .cons _ (.swap _ _ _),
      .cons _ (.cons_cons _ (.cons _ (.refl _)))⟩
  have hclosed : ∀ t ∈ part, ∀ d ∈ t.dependencies, d ∈ Sample.declared.map Target.label →
      d ∈ part.map Target.label := by decide
  have hmid : (assemble Sample.bare .empty Sample.declared).toOption.map
      (·.skipped.get? Sample.mid) = some (some Sample.lost) := by decide
  cases h : assemble Sample.bare .empty Sample.declared with
  | error e =>
    rw [h] at hmid
    cases hmid
  | ok a =>
    rw [h] at hmid
    obtain ⟨b, hb, hagree⟩ := assemble_local distinct h hpart hclosed
    exact ⟨distinct, hpart, hclosed, a, b, rfl, hb, Option.some.inj hmid, hagree⟩

end BuildGraph
