import BuildGraph.Proofs.Accounts
import BuildGraph.Proofs.Blocks
import BuildGraph.Proofs.Loading

/-!
# What targets contribute

The edges of an assembly are made of one block for each lowered target, the products of that target
with further files to wait for (`contributed_of_assemble`). A target that fails leaves nothing
behind, however far it came: visiting the lowered targets alone, in the same order and from nothing,
comes to the same edges and lowerings.

The invariant along the visits compares the two runs: after as many visits, the run over lowered
targets alone holds what the whole one holds apart from its failures (`Schedule.run_lowered`).
-/

namespace BuildGraph

open Relation

variable {project : Project} {rules : RuleTable} {targets visits : List Target} {t : Target}
variable {a : Assembly}

/-- The finished edge is the edge but for files to wait for, which were added after those that it
had. -/
structure Edge.Completes (edge finished : Edge) : Prop where
  rule : finished.rule = edge.rule
  inputs : finished.inputs = edge.inputs
  outputs : finished.outputs = edge.outputs
  assignments : finished.assignments = edge.assignments
  implicit : edge.implicit <+: finished.implicit

theorem Edge.completes_waitFor (edge : Edge) (paths : List String) :
    edge.Completes (edge.waitFor paths) where
  rule := edge.waitFor_rule paths
  inputs := edge.waitFor_inputs paths
  outputs := edge.waitFor_outputs paths
  assignments := edge.waitFor_assignments paths
  implicit := by
    rw [edge.waitFor_implicit]
    exact prefix_extendUnique _ _

/-- The edges are those that the target produces for its environment, in the same order and
finished. -/
def Target.Yields (project : Project) (t : Target) (block : List Edge) : Prop :=
  ∃ environment after products, t.resolve project = (.ok environment, after) ∧
    after.products = .ok products ∧ List.Forall₂ Edge.Completes products.edges block

/-- What is left of an assembly without its record of failures. -/
def Assembly.successes (a : Assembly) : Assembly := { edges := a.edges, lowered := a.lowered }

/-- How the targets in `order`, which were lowered, make up an assembly. -/
structure Contributed (project : Project) (rules : RuleTable) (targets : List Target) (a : Assembly)
    (order : List Target) : Prop where
  lowered : order.Perm (targets.filter fun t => a.lowered.contains t.label)
  /-- Every dependency of a target stands before it. -/
  preceded : Preceded (DependsOn targets) (order.map Target.label)
  edges : ∃ blocks, List.Forall₂ (Target.Yields project) order blocks ∧ a.edges = blocks.flatten
  checked : ∀ edge ∈ a.edges, rules.checkEdge edge = .ok ()
  /-- Without the other targets nothing else would have come of these. -/
  alone : run project rules {} order = a.successes
  /-- The others have no part in this and pass nothing on. -/
  others : ∀ t ∈ targets, a.failures.contains t.label ∨ a.skipped.contains t.label →
    t ∉ order ∧ a.exports? t.label = none ∧ a.bindings? t.label = none

/-! ## Visits of lowered targets alone -/

namespace Assembly

/-- An attempt does not see failures. -/
theorem attempt_successes (a : Assembly) (t : Target) :
    a.successes.attempt project rules t = a.attempt project rules t := rfl

/-- A visit that lowers a target does the same without the failures recorded before. -/
theorem next_successes {x : Lowering} {edges : List Edge}
    (hattempt : (a.attempt project rules t).1 = .ok (x, edges)) :
    a.successes.next project rules t = (a.record t.label x edges).successes := by
  have hfree : a.successes.blocker? t.dependencies = none :=
    blocker?_eq_none.mpr fun d _ => ⟨rfl, rfl⟩
  rw [← attempt_successes] at hattempt
  rcases next_cases project rules (a := a.successes) (t := t) rfl with
    ⟨cause, hb, -⟩ | ⟨e, -, he, -⟩ | ⟨y, edges', -, hy, hn⟩
  · rw [hfree] at hb
    cases hb
  · rw [hattempt] at he
    cases he
  · rw [hattempt] at hy
    obtain ⟨rfl, rfl⟩ := Prod.mk.inj (Except.ok.inj hy)
    exact hn

end Assembly

namespace Schedule

/-- Without the visits of the other targets the lowered ones leave the same behind. -/
theorem run_lowered (h : Schedule targets visits)
    (ha : a = run project rules (unknownDependencies targets) visits) :
    run project rules {} (visits.filter fun t => a.lowered.contains t.label) = a.successes := by
  have hsofar : ∀ done rest, visits = done ++ rest →
      run project rules {} (done.filter fun t => a.lowered.contains t.label) =
        (run project rules (unknownDependencies targets) done).successes := by
    intro done
    induction done using List.reverseRecOn with
    | nil =>
      intro rest _
      simp [run, Assembly.successes, edges_unknownDependencies,
        lowered_unknownDependencies h.distinct]
    | append_singleton done t ih =>
      intro rest hsplit
      rw [List.append_assoc, List.singleton_append] at hsplit
      rw [List.filter_append, run_snoc]
      have hdone := ih (t :: rest) hsplit
      subst hsplit
      rcases h.visit_cases project rules rfl ha with
        ⟨hnone, hedges, hlowered⟩ | ⟨x, edges, hx, hattempt, hn⟩
      · have hout : [t].filter (fun t => a.lowered.contains t.label) = [] := by
          simp [SortedMap.contains, hnone]
        rw [hout, List.append_nil, hdone, Assembly.successes, Assembly.successes, hedges, hlowered]
      · have hin : [t].filter (fun t => a.lowered.contains t.label) = [t] := by
          simp [SortedMap.contains, hx]
        rw [hin, run_snoc, hdone, hn, Assembly.next_successes hattempt]
  rw [hsofar visits [] (List.append_nil visits).symm, ← ha]

/-- Lowered targets are visited after those that they depend on, which were lowered too. -/
theorem preceded_lowered (h : Schedule targets visits) (hsettled : Settled project rules targets a) :
    Preceded (DependsOn targets)
      ((visits.filter fun t => a.lowered.contains t.label).map Target.label) := by
  have hkept : ∀ t ∈ visits, a.lowered.contains t.label = true →
      ∀ u, (u ∈ targets ∧ u.label ∈ t.dependencies) → a.lowered.contains u.label = true := by
    intro t ht hlowered u hu
    exact hsettled.lowered_dependency (h.perm.mem_iff.mp ht) hlowered hu.2
  refine (h.preceded.filter hkept).map fun t ht l hl => ?_
  obtain ⟨hvisited, hlowered⟩ := List.mem_filter.mp ht
  obtain ⟨t', ht', heq, hd⟩ := hl
  obtain rfl := eq_of_label_eq h.distinct ht' (h.perm.mem_iff.mp hvisited) heq
  have hmem := hsettled.mem_labels_of_lowered (hsettled.lowered_dependency ht' hlowered hd)
  obtain ⟨u, hu, rfl⟩ := List.mem_map.mp hmem
  exact ⟨u, ⟨hu, hd⟩, rfl⟩

/-! ## Blocks -/

/-- The block of a visited target: empty if the target was not lowered, and otherwise its finished
products, all of which pass the check. -/
theorem block_yields (h : Schedule targets visits)
    (ha : a = run project rules (unknownDependencies targets) visits) :
    List.Forall₂ (fun t block => (a.lowered.contains t.label = false ∧ block = []) ∨
        (a.lowered.contains t.label = true ∧ t.Yields project block ∧
          ∀ edge ∈ block, rules.checkEdge edge = .ok ()))
      visits (blocks project rules (unknownDependencies targets) visits) := by
  refine forall₂_blocks _ _ fun done t rest hsplit => ?_
  subst hsplit
  rcases h.block_cases project rules rfl ha with ⟨hnone, hblock⟩ | ⟨x, edges, hx, hblock, hattempt⟩
  · exact .inl ⟨SortedMap.contains_eq_false.mpr hnone, hblock⟩
  · obtain ⟨environment, after, products, hres, hp, -, hedges, hall, -⟩ :=
      Assembly.attempt_eq_ok hattempt
    refine .inr ⟨SortedMap.contains_of_get? hx, ⟨environment, after, products, hres, hp, ?_⟩, ?_⟩
    · rw [hblock, hedges, List.forall₂_map_right_iff]
      exact List.forall₂_same.mpr fun edge _ => edge.completes_waitFor _
    · rwa [hblock]

end Schedule

/-- Whatever the targets yield: the lowered ones, in the order of their visits, make up the
assembly. -/
theorem contributed_of_assemble (distinct : (targets.map Target.label).Nodup)
    (h : assemble project rules targets = .ok a) :
    ∃ order, Contributed project rules targets a order := by
  obtain ⟨visits, hschedule, ha⟩ := exists_schedule distinct h
  have hsettled : Settled project rules targets a := ha ▸ hschedule.settled
  obtain ⟨kept, hkept, hflatten⟩ := exists_forall₂_filter (hschedule.block_yields ha)
  have hedges : a.edges = kept.flatten := by
    rw [hflatten, ha, edges_run, edges_unknownDependencies, List.nil_append]
  refine ⟨visits.filter fun t => a.lowered.contains t.label, {
    lowered := hschedule.perm.filter _
    preceded := hschedule.preceded_lowered hsettled
    edges := ⟨kept, hkept.imp fun _ _ hblock => hblock.1, hedges⟩
    checked := ?_
    alone := hschedule.run_lowered ha
    others := ?_ }⟩
  · intro edge hedge
    rw [hedges] at hedge
    obtain ⟨block, hblock, hmem⟩ := List.mem_flatten.mp hedge
    obtain ⟨t, -, -, hall⟩ := exists_of_mem_right hkept block hblock
    exact hall edge hmem
  · intro t ht hother
    have hnot := hsettled.not_lowered ht hother
    have hnone := SortedMap.contains_eq_false.mp hnot
    refine ⟨fun hmem => ?_, ?_, ?_⟩
    · rw [(List.mem_filter.mp hmem).2] at hnot
      cases hnot
    · rw [Assembly.exports?, hnone]
      rfl
    · rw [bindings?_eq, hnone]
      rfl

namespace Sample

/-- An edge that copies a file. -/
def copy (input output : String) : Edge :=
  { rule := "cp", inputs := [input], outputs := [output], assignments := .empty }

/-- A rule for copying, and none for moving. -/
def copying : Except RuleError RuleTable :=
  RuleTable.empty.register { name := "cp", command := "cp $in $out", description := "CP $out" }

/-- Of three consumers of `base`, `left` fails on its second edge and `right` on what it exports, with
which `leaf` is skipped. -/
def copies : List Target :=
  [Stated.target { label := top, dependencies := [base],
                   edges := [copy "base.2" "top.1", copy "base.1" "top.2"] },
    Stated.target { label := leaf, dependencies := [base, right], edges := [copy "a" "leaf"] },
    Stated.target { label := left, dependencies := [base], exports := announcement left,
                    edges := [copy "base.1" "left.1", { copy "a" "left.2" with rule := "mv" }] },
    Stated.target { label := right, dependencies := [base],
                    exports := Delta.appending [("mode", ["-g"])],
                    edges := [copy "base.1" "right.1", copy "base.2" "right.2"] },
    Stated.target { label := base, exports := (announcement base).withOverride "mode" "old",
                    edges := [copy "a" "base.1", copy "b" "base.2"] }]

end Sample

theorem contributed_sample : (Sample.copies.map Target.label).Nodup ∧
    ∃ rules a, Sample.copying = .ok rules ∧
      assemble Sample.bare rules Sample.copies = .ok a ∧
      (a.failures.get? Sample.left).map TargetError.fault = some (.rule (.unknownRule "mv")) ∧
      (a.failures.get? Sample.right).map TargetError.fault =
        some (.delta (.kindMismatch "mode")) ∧
      a.skipped.contains Sample.leaf = true ∧ a.edges.length = 4 ∧
      ∃ order, Contributed Sample.bare rules Sample.copies a order := by
  have distinct : (Sample.copies.map Target.label).Nodup := by decide
  have hruns : (Sample.copying.toOption.bind fun rules =>
      (assemble Sample.bare rules Sample.copies).toOption.map fun a =>
        ([Sample.left, Sample.right].map fun l => (a.failures.get? l).map TargetError.fault,
          a.skipped.contains Sample.leaf, a.edges.length)) =
      some ([some (.rule (.unknownRule "mv")), some (.delta (.kindMismatch "mode"))],
        true, 4) := by decide
  obtain ⟨rules, hrules, hruns⟩ := Option.bind_eq_some_iff.mp hruns
  obtain ⟨a, ha, hruns⟩ := Option.map_eq_some_iff.mp hruns
  replace ha := eq_ok_of_toOption ha
  simp only [Prod.mk.injEq, List.map_cons, List.map_nil, List.cons.injEq, and_true] at hruns
  obtain ⟨⟨hleft, hright⟩, hleaf, hlength⟩ := hruns
  exact ⟨distinct, rules, a, eq_ok_of_toOption hrules, ha, hleft, hright, hleaf, hlength,
    contributed_of_assemble distinct ha⟩

end BuildGraph
