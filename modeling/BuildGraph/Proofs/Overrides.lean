import BuildGraph.Proofs.Unfolding

/-!
# Which override stands

Deltas that override a field replace its value, so the last one applied decides it. A target inherits
the tree below it written out, and there a target that is reached in several ways is applied once for
each of them. Of two targets that override a field, one of which depends on the other, the nearer one
need not come last: the other is applied again if it is reached in another way after it. The nearer
override stands exactly if, in the tree written out, it has an occurrence that the other does not
follow (`override_stands_iff`).
-/

namespace BuildGraph

open Relation

/-! ## Fields of applied deltas -/

section Fields

variable {k value : String} {held reached : Bindings} {d : Delta}

theorem Delta.get?_apply_untouched (h : d.apply held = .ok reached) (hd : d.get? k = none) :
    reached.get? k = held.get? k := by
  have hk := Delta.apply_eq_ok_iff.mp h k
  rw [hd] at hk
  exact (Option.some.inj hk).symm

theorem Delta.get?_apply_override (h : d.apply held = .ok reached)
    (hd : d.get? k = some (.override value)) : reached.get? k = some (.scalar value) := by
  have hk := Delta.apply_eq_ok_iff.mp h k
  rw [hd] at hk
  obtain ⟨b, hb, hk⟩ := Option.map_eq_some_iff.mp hk
  rw [← hk]
  rcases hheld : held.get? k with _ | (entries | old) <;> rw [hheld] at hb <;> cases hb
  · rfl
  · rfl

/-- A field that no delta touches keeps its value. -/
theorem Bindings.get?_applyEach_untouched {deltas : List Delta}
    (h : held.applyEach deltas = .ok reached) (hnone : ∀ d ∈ deltas, d.get? k = none) :
    reached.get? k = held.get? k := by
  induction deltas generalizing held with
  | nil =>
    obtain rfl := Except.ok.inj h
    rfl
  | cons d rest ih =>
    obtain ⟨between, hd, hrest⟩ := Bindings.applyEach_cons.mp h
    rw [ih hrest fun e he => hnone e (List.mem_cons_of_mem _ he)]
    exact Delta.get?_apply_untouched hd (hnone d List.mem_cons_self)

/-- The last delta that touches a field decides its value if it overrides it. -/
theorem Bindings.get?_applyEach_last {before after : List Delta}
    (h : held.applyEach (before ++ d :: after) = .ok reached)
    (hd : d.get? k = some (.override value)) (hafter : ∀ e ∈ after, e.get? k = none) :
    reached.get? k = some (.scalar value) := by
  obtain ⟨_, -, h⟩ := Bindings.applyEach_append.mp h
  obtain ⟨between, hbetween, hrest⟩ := Bindings.applyEach_cons.mp h
  rw [Bindings.get?_applyEach_untouched hrest hafter]
  exact Delta.get?_apply_override hbetween hd

end Fields

/-! ## Overrides in an assembly -/

variable {project : Project} {rules : RuleTable} {targets visits : List Target} {a : Assembly}

namespace Assembly

/-- The target exports a delta that overrides the field by this value. -/
def Overrides (a : Assembly) (l : Label) (k value : String) : Prop :=
  ∃ d, a.exports? l = some d ∧ d.get? k = some (.override value)

/-- Nothing that the target exports is about the field. -/
def LeavesAlone (a : Assembly) (l : Label) (k : String) : Prop :=
  ∀ d, a.exports? l = some d → d.get? k = none

end Assembly

/-- The last target in the tree below a target that touches a field decides what the target inherits
for it, if it overrides it. -/
theorem Settled.get?_bindings_last (h : Settled project rules targets a)
    (hschedule : Schedule targets visits) {t : Target} (ht : t ∈ targets) {x : Lowering}
    (hx : a.lowered.get? t.label = some x) {before after : List Label} {w : Label}
    {k value : String} (hlabels : Unfolds targets t.dependencies (before ++ w :: after))
    (hw : a.Overrides w k value) (hafter : ∀ l ∈ after, a.LeavesAlone l k) :
    x.inherited.bindings.get? k = some (.scalar value) := by
  obtain ⟨deltas, ⟨labels, hunfolds, hdeltas⟩, hacts⟩ := h.inherited_actsAs hschedule ht hx
  obtain rfl := hunfolds.unique hschedule.distinct hlabels
  -- the deltas split where the labels do
  rw [List.map_append, List.map_cons] at hdeltas
  obtain ⟨first, others, rfl, -, hothers⟩ := List.map_eq_append_iff.mp hdeltas.symm
  obtain ⟨d, next, rfl, hd, hnext⟩ := List.map_eq_cons_iff.mp hothers
  obtain ⟨d', hd', hoverride⟩ := hw
  obtain rfl := Option.some.inj (hd.trans hd')
  refine Bindings.get?_applyEach_last ((hacts _ _).mp x.inherited.apply_empty) hoverride ?_
  intro e he
  have hmem : some e ∈ after.map a.exports? := hnext ▸ List.mem_map_of_mem he
  obtain ⟨l, hl, hexports⟩ := List.mem_map.mp hmem
  exact hafter l hl e hexports

theorem exists_last_of_mem {α : Type} {x : α} {xs : List α} (h : x ∈ xs) :
    ∃ before after, xs = before ++ x :: after ∧ x ∉ after := by
  obtain ⟨after, before, hxs, hnot⟩ := List.eq_append_cons_of_mem (List.mem_reverse.mpr h)
  refine ⟨before.reverse, after.reverse, ?_, by simpa using hnot⟩
  have hreverse := congrArg List.reverse hxs
  simpa using hreverse

/-- Of two things in a list, one has an occurrence that the other does not follow. -/
theorem exists_not_followed {α : Type} {x y : α} {xs : List α} (h : y ∈ xs) :
    (∃ before after, xs = before ++ y :: after ∧ x ∉ after) ∨
    (∃ before after, xs = before ++ x :: after ∧ y ∉ after) := by
  obtain ⟨before, after, rfl, hy⟩ := exists_last_of_mem h
  by_cases hx : x ∈ after
  · obtain ⟨before', after', rfl, -⟩ := exists_last_of_mem hx
    exact .inr ⟨before ++ y :: before', after', by simp, fun hmem => hy (by simp [hmem])⟩
  · exact .inl ⟨before, after, rfl, hx⟩

/-- Two targets below `t` override a field, `u` by `x` and `v` by `y`, and nothing else below `t`
touches it. -/
structure Contest (targets : List Target) (a : Assembly) (t : Target) (k : String) (u v : Label)
    (x y : String) : Prop where
  below_u : TransGen (DependsOn targets) t.label u
  below_v : TransGen (DependsOn targets) t.label v
  overrides_u : a.Overrides u k x
  overrides_v : a.Overrides v k y
  others : ∀ w, TransGen (DependsOn targets) t.label w → w ≠ u → w ≠ v → a.LeavesAlone w k

namespace Contest

variable {t : Target} {k x y : String} {u v : Label} {lowering : Lowering}
variable {before after : List Label}

theorem symm (c : Contest targets a t k u v x y) : Contest targets a t k v u y x where
  below_u := c.below_v
  below_v := c.below_u
  overrides_u := c.overrides_v
  overrides_v := c.overrides_u
  others w hw hv hu := c.others w hw hu hv

/-- An occurrence that the other target does not follow decides. -/
theorem stands (c : Contest targets a t k u v x y) (h : Settled project rules targets a)
    (hschedule : Schedule targets visits) (ht : t ∈ targets)
    (hx : a.lowered.get? t.label = some lowering)
    (hunfolds : Unfolds targets t.dependencies (before ++ v :: after)) (hu : u ∉ after) :
    lowering.inherited.bindings.get? k = some (.scalar y) := by
  -- the last occurrence is followed by neither target
  have hmem : v ∈ v :: after := List.mem_cons_self
  obtain ⟨before', after', hsplit, hv⟩ := exists_last_of_mem hmem
  have hafter : ∀ l ∈ after', l ∈ after := by
    intro l hl
    have hl' : l ∈ v :: after := hsplit ▸ List.mem_append_right _ (List.mem_cons_of_mem _ hl)
    rcases List.mem_cons.mp hl' with rfl | hl'
    · exact absurd hl hv
    · exact hl'
  rw [hsplit, ← List.append_assoc] at hunfolds
  refine h.get?_bindings_last hschedule ht hx hunfolds c.overrides_v fun l hl => ?_
  have hbelow : TransGen (DependsOn targets) t.label l :=
    (hunfolds.mem_below_iff hschedule.distinct ht).mp (by simp [hl])
  refine c.others l hbelow ?_ ?_
  · rintro rfl
    exact hu (hafter l hl)
  · rintro rfl
    exact hv hl

end Contest

/-- If two targets below a lowered target contest a field, it inherits the value of one of them: that
of `v` exactly if, in the tree written out, `v` has an occurrence that `u` does not follow, or if the
values are the same. -/
theorem override_stands_iff (distinct : (targets.map Target.label).Nodup)
    (h : assemble project rules targets = .ok a) {t : Target} (ht : t ∈ targets)
    (hlowered : a.lowered.contains t.label = true) {u v : Label} {k x y : String}
    (c : Contest targets a t k u v x y) :
    ∃ labels bindings, Unfolds targets t.dependencies labels ∧
      a.bindings? t.label = some bindings ∧
      (bindings.get? k = some (.scalar x) ∨ bindings.get? k = some (.scalar y)) ∧
      (bindings.get? k = some (.scalar y) ↔
        x = y ∨ ∃ before after, labels = before ++ v :: after ∧ u ∉ after) := by
  obtain ⟨visits, hschedule, ha⟩ := exists_schedule distinct h
  have hsettled : Settled project rules targets a := ha ▸ hschedule.settled
  obtain ⟨lowering, hlowering⟩ := SortedMap.contains_eq_true.mp hlowered
  obtain ⟨deltas, ⟨labels, hunfolds, -⟩, -⟩ :=
    hsettled.inherited_actsAs hschedule ht hlowering
  have hstands : (∃ before after, labels = before ++ v :: after ∧ u ∉ after) →
      lowering.inherited.bindings.get? k = some (.scalar y) := by
    rintro ⟨before, after, rfl, hu⟩
    exact c.stands hsettled hschedule ht hlowering hunfolds hu
  refine ⟨labels, _, hunfolds, bindings?_of_lowered hlowering, ?_⟩
  have hv : v ∈ labels := (hunfolds.mem_below_iff distinct ht).mpr c.below_v
  rcases exists_not_followed (x := u) hv with hoccurs | ⟨before, after, rfl, hnot⟩
  · have hy := hstands hoccurs
    exact ⟨.inr hy, fun _ => .inr hoccurs, fun _ => hy⟩
  · have hx := c.symm.stands hsettled hschedule ht hlowering hunfolds hnot
    refine ⟨.inl hx, fun hy => ?_, ?_⟩
    · rw [hx] at hy
      cases hy
      exact .inl rfl
    · rintro (rfl | hoccurs)
      · exact hx
      · exact hstands hoccurs

/-- Of two targets that contest a field, if the one depends on the other and the consumer does not
name that one itself, the nearer one decides, whatever ways lead to the other: so it would be if a
delta that arrives in several ways counted once. -/
def NearerStands (targets : List Target) (a : Assembly) : Prop :=
  ∀ t ∈ targets, a.lowered.contains t.label = true → ∀ k u v x y,
    Contest targets a t k u v x y → TransGen (DependsOn targets) v u → u ∉ t.dependencies →
    ∃ bindings, a.bindings? t.label = some bindings ∧ bindings.get? k = some (.scalar y)

namespace Sample

theorem top_dependsOn {w : Label} (h : TransGen (DependsOn sides) top w) :
    w ∈ [left, right, base] := by
  have hall : ∀ t ∈ sides, ∀ d ∈ t.dependencies, d ∈ [left, right, base] := by decide
  obtain ⟨_, -, t, ht, -, hd⟩ := TransGen.tail'_iff.mp h
  exact hall t ht w hd

theorem top_left : DependsOn sides top left := ⟨_, List.mem_cons_self, rfl, by decide⟩

theorem left_base : DependsOn sides left base := ⟨sides[2], List.getElem_mem _, rfl, by decide⟩

/-- In the diamond `base` and the side that depends on it contest `mode`, and `base` stands. -/
theorem sides_mode : ∃ a, assemble bare .empty sides = .ok a ∧ a.lowered.contains top = true ∧
    Contest sides a sides[0] "mode" base left "old" "new" ∧
    (a.bindings? top).bind (·.get? "mode") = some (.scalar "old") := by
  have hruns : (assemble bare .empty sides).toOption.map (fun a =>
      (a.lowered.contains top,
        [base, left, right].map fun l => (a.exports? l).map (·.get? "mode"),
        (a.bindings? top).bind (·.get? "mode"))) =
      some (true, [some (some (.override "old")), some (some (.override "new")), some none],
        some (.scalar "old")) := by decide
  obtain ⟨a, ha, hruns⟩ := Option.map_eq_some_iff.mp hruns
  simp only [Prod.mk.injEq, List.map_cons, List.map_nil, List.cons.injEq, and_true,
    Option.map_eq_some_iff] at hruns
  obtain ⟨hlowered, ⟨hbase, hleft, hright⟩, hmode⟩ := hruns
  refine ⟨a, eq_ok_of_toOption ha, hlowered,
    ⟨.tail (.single top_left) left_base, .single top_left, hbase, hleft, ?_⟩, hmode⟩
  intro w hw hnotbase hnotleft d hd
  have hmem := top_dependsOn hw
  simp only [List.mem_cons, List.not_mem_nil, or_false, hnotbase, hnotleft, false_or] at hmem
  subst hmem
  obtain ⟨d', hd', hnone⟩ := hright
  obtain rfl := Option.some.inj (hd.symm.trans hd')
  exact hnone

end Sample

theorem override_stands_iff_sample : (Sample.sides.map Target.label).Nodup ∧
    ∃ a, assemble Sample.bare .empty Sample.sides = .ok a ∧
      a.lowered.contains Sample.top = true ∧
      Contest Sample.sides a Sample.sides[0] "mode" Sample.base Sample.left "old" "new" ∧
      ∃ labels bindings, Unfolds Sample.sides [Sample.left, Sample.right] labels ∧
        a.bindings? Sample.top = some bindings ∧
        (bindings.get? "mode" = some (.scalar "old") ∨
          bindings.get? "mode" = some (.scalar "new")) ∧
        (bindings.get? "mode" = some (.scalar "new") ↔
          "old" = "new" ∨ ∃ before after, labels = before ++ Sample.left :: after ∧
            Sample.base ∉ after) := by
  obtain ⟨a, ha, hlowered, hcontest, -⟩ := Sample.sides_mode
  have distinct : (Sample.sides.map Target.label).Nodup := by decide
  exact ⟨distinct, a, ha, hlowered, hcontest,
    override_stands_iff distinct ha (t := Sample.sides[0]) (List.getElem_mem _) hlowered hcontest⟩

/-- In the diamond the override by `base` is applied again after that by the left side. -/
theorem not_nearerStands : ∃ a, assemble Sample.bare .empty Sample.sides = .ok a ∧
    ¬ NearerStands Sample.sides a := by
  obtain ⟨a, ha, hlowered, hcontest, hmode⟩ := Sample.sides_mode
  refine ⟨a, ha, fun hstands => ?_⟩
  obtain ⟨bindings, hbindings, hnew⟩ := hstands Sample.sides[0] (List.getElem_mem _) hlowered _ _ _ _ _ hcontest
    (.single Sample.left_base) (by decide)
  have htopmode : (a.bindings? Sample.top).bind (·.get? "mode") = some (.scalar "new") :=
    Option.bind_eq_some_iff.mpr ⟨bindings, hbindings, hnew⟩
  rw [hmode] at htopmode
  exact absurd htopmode (by decide)

end BuildGraph
