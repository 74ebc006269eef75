import BuildGraph.Proofs.Accounts
import BuildGraph.Proofs.Inheritance
import BuildGraph.Proofs.Loading

/-!
# Inheritance without sharing

An assembly composes what a target passes on once, and every consumer takes the composed delta. What
is meant by inheriting is said without sharing: the tree below a target is written out, a dependency
once for every way that leads to it, and the deltas of the whole list are applied one after another.
The two agree, clashes included (`inheritsTrees_of_assemble`).

The invariant along the visits is that the one delta that a lowered target passes on does what the
deltas below it and then its own do (`Settled.passesOnTree`).
-/

namespace BuildGraph

open Relation

/-! ## Deltas one after another -/

namespace Bindings

/-- Apply deltas one after another, up to the first clash. -/
def applyEach (held : Bindings) (deltas : List Delta) : Except Clash Bindings :=
  deltas.foldlM (fun held d => d.apply held) held

theorem applyEach_cons {held reached : Bindings} {d : Delta} {deltas : List Delta} :
    held.applyEach (d :: deltas) = .ok reached ↔
      ∃ between, d.apply held = .ok between ∧ between.applyEach deltas = .ok reached := by
  rw [applyEach, List.foldlM_cons]
  cases h : d.apply held with
  | error clash => simp [bind, Except.bind]
  | ok between =>
    constructor
    · intro hreached
      exact ⟨between, rfl, hreached⟩
    · rintro ⟨_, heq, hreached⟩
      obtain rfl := Except.ok.inj heq
      exact hreached

theorem applyEach_append {held reached : Bindings} {first next : List Delta} :
    held.applyEach (first ++ next) = .ok reached ↔
      ∃ between, held.applyEach first = .ok between ∧ between.applyEach next = .ok reached := by
  induction first generalizing held with
  | nil =>
    constructor
    · intro h
      exact ⟨held, rfl, h⟩
    · rintro ⟨_, heq, h⟩
      obtain rfl := Except.ok.inj heq
      exact h
  | cons d first ih =>
    simp only [List.cons_append, applyEach_cons, ih]
    constructor
    · rintro ⟨start, hd, between, hfirst, hnext⟩
      exact ⟨between, ⟨start, hd, hfirst⟩, hnext⟩
    · rintro ⟨between, ⟨start, hd, hfirst⟩, hnext⟩
      exact ⟨start, hd, between, hfirst, hnext⟩

end Bindings

namespace Delta

/-- The delta does what the deltas of a list do one after another, and clashes if one of them
does. -/
def ActsAs (d : Delta) (deltas : List Delta) : Prop :=
  ∀ held reached : Bindings, d.apply held = .ok reached ↔ held.applyEach deltas = .ok reached

variable {a b c : Delta} {first next : List Delta}

theorem actsAs_empty : empty.ActsAs [] := fun _ _ => Iff.rfl

theorem actsAs_self (d : Delta) : d.ActsAs [d] := by
  intro held reached
  rw [Bindings.applyEach_cons]
  constructor
  · intro h
    exact ⟨reached, h, rfl⟩
  · rintro ⟨_, h, heq⟩
    obtain rfl := Except.ok.inj heq
    exact h

theorem ActsAs.compose (ha : a.ActsAs first) (hb : b.ActsAs next) (h : a.compose b = .ok c) :
    c.ActsAs (first ++ next) := by
  intro held reached
  rw [apply_of_compose h, Bindings.applyEach_append]
  exact exists_congr fun between => and_congr (ha held between) (hb between reached)

/-- If two deltas clash, the deltas for which they stand cannot be applied one after another, whatever
the bindings at the start. -/
theorem ActsAs.not_applyEach (ha : a.ActsAs first) (hb : b.ActsAs next) {e : DeltaError}
    (h : a.compose b = .error e) (held reached : Bindings) :
    held.applyEach (first ++ next) ≠ .ok reached := by
  intro hall
  obtain ⟨between, hfirst, hnext⟩ := Bindings.applyEach_append.mp hall
  exact not_apply_of_clash h ((ha held between).mpr hfirst) ((hb between reached).mpr hnext)

end Delta

/-! ## Trees written out -/

variable {project : Project} {rules : RuleTable} {targets visits : List Target} {a : Assembly}

/-- The tree below some labels written out: for each label in order whatever is below it and then the
label, once for every way that leads to it. -/
inductive Unfolds (targets : List Target) : List Label → List Label → Prop
  | nil : Unfolds targets [] []
  | cons {t : Target} {rest below more : List Label} : t ∈ targets →
      Unfolds targets t.dependencies below → Unfolds targets rest more →
      Unfolds targets (t.label :: rest) (below ++ t.label :: more)

namespace Unfolds

theorem eq_nil {labels : List Label} (h : Unfolds targets [] labels) : labels = [] := by
  cases h
  rfl

theorem of_cons {l : Label} {rest labels : List Label} (h : Unfolds targets (l :: rest) labels) :
    ∃ t ∈ targets, t.label = l ∧ ∃ below more, labels = below ++ l :: more ∧
      Unfolds targets t.dependencies below ∧ Unfolds targets rest more := by
  generalize hroots : l :: rest = roots at h
  cases h with
  | nil => cases hroots
  | @cons t rest' below more ht hbelow hmore =>
    obtain ⟨rfl, rfl⟩ := List.cons.inj hroots
    exact ⟨t, ht, rfl, below, more, rfl, hbelow, hmore⟩

/-- The tree is written out in one way only. -/
theorem unique (distinct : (targets.map Target.label).Nodup) {roots labels labels' : List Label}
    (h : Unfolds targets roots labels) (h' : Unfolds targets roots labels') : labels = labels' := by
  induction h generalizing labels' with
  | nil => exact h'.eq_nil.symm
  | cons ht _ _ ihbelow ihmore =>
    obtain ⟨u, hu, hut, below, more, rfl, hbelow, hmore⟩ := h'.of_cons
    obtain rfl := eq_of_label_eq distinct hu ht hut
    rw [ihbelow hbelow, ihmore hmore]

/-- What is written out is what the labels lead to. -/
theorem mem_iff (distinct : (targets.map Target.label).Nodup) {roots labels : List Label}
    (h : Unfolds targets roots labels) {l : Label} :
    l ∈ labels ↔ ∃ d ∈ roots, ReflTransGen (DependsOn targets) d l := by
  induction h with
  | nil => simp
  | @cons t rest below more ht _ _ ihbelow ihmore =>
    have hbelow : l ∈ below ↔ TransGen (DependsOn targets) t.label l :=
      ihbelow.trans (transGen_dependsOn_iff distinct ht).symm
    simp only [List.mem_append, List.mem_cons, hbelow, ihmore, exists_eq_or_imp,
      reflTransGen_iff_eq_or_transGen (a := t.label)]
    tauto

/-- The tree below a target holds what the target depends on. -/
theorem mem_below_iff (distinct : (targets.map Target.label).Nodup) {t : Target} (ht : t ∈ targets)
    {labels : List Label} (h : Unfolds targets t.dependencies labels) {l : Label} :
    l ∈ labels ↔ TransGen (DependsOn targets) t.label l :=
  (h.mem_iff distinct).trans (transGen_dependsOn_iff distinct ht).symm

end Unfolds

/-- The deltas that the tree below some labels exports, in order. -/
def Unfolding (targets : List Target) (a : Assembly) (roots : List Label) (deltas : List Delta) :
    Prop :=
  ∃ labels, Unfolds targets roots labels ∧ labels.map a.exports? = deltas.map some

namespace Unfolding

variable {roots : List Label} {deltas deltas' : List Delta}

theorem nil : Unfolding targets a [] [] := ⟨[], .nil, rfl⟩

theorem cons {t : Target} {rest : List Label} {below more : List Delta} {exports : Delta}
    (ht : t ∈ targets) (hexports : a.exports? t.label = some exports)
    (hbelow : Unfolding targets a t.dependencies below) (hmore : Unfolding targets a rest more) :
    Unfolding targets a (t.label :: rest) (below ++ exports :: more) := by
  obtain ⟨labels, hlabels, hdeltas⟩ := hbelow
  obtain ⟨labels', hlabels', hdeltas'⟩ := hmore
  refine ⟨labels ++ t.label :: labels', .cons ht hlabels hlabels', ?_⟩
  simp [hdeltas, hdeltas', hexports]

theorem unique (distinct : (targets.map Target.label).Nodup)
    (h : Unfolding targets a roots deltas) (h' : Unfolding targets a roots deltas') :
    deltas = deltas' := by
  obtain ⟨labels, hlabels, hdeltas⟩ := h
  obtain ⟨labels', hlabels', hdeltas'⟩ := h'
  obtain rfl := hlabels.unique distinct hlabels'
  exact List.map_injective_iff.mpr (Option.some_injective _) (hdeltas.symm.trans hdeltas')

end Unfolding

/-! ## What is passed on -/

/-- If `l` is lowered, it passes on what the deltas below it and then its own do. -/
def PassesOnTree (targets : List Target) (a : Assembly) (l : Label) : Prop :=
  ∀ x, a.lowered.get? l = some x → ∃ t ∈ targets, t.label = l ∧
    ∃ deltas, Unfolding targets a t.dependencies deltas ∧
      x.passedOn.ActsAs (deltas ++ [x.exports])

/-- Going on from a delta that stands for a list, inheriting from lowered dependencies leads to one
that stands for the list with the tree below them added, or to a clash if that list has one. -/
theorem inherit_from_passesOnTree {dependencies : List Label}
    (h : ∀ d ∈ dependencies, a.lowered.contains d = true ∧ PassesOnTree targets a d) :
    ∃ deltas, Unfolding targets a dependencies deltas ∧ ∀ start first, start.ActsAs first →
      (∀ inherited, dependencies.foldlM a.inheritFrom start = .ok inherited →
        inherited.ActsAs (first ++ deltas)) ∧
      (∀ e, dependencies.foldlM a.inheritFrom start = .error e →
        ∀ held reached : Bindings, held.applyEach (first ++ deltas) ≠ .ok reached) := by
  induction dependencies with
  | nil =>
    refine ⟨[], .nil, fun start first hstart => ⟨?_, ?_⟩⟩
    · intro inherited hinherited
      obtain rfl := Except.ok.inj hinherited
      rwa [List.append_nil]
    · intro e he
      cases he
  | cons d rest ih =>
    obtain ⟨more, hmore, hrest⟩ := ih fun e he => h e (List.mem_cons_of_mem _ he)
    obtain ⟨hlowered, hpasses⟩ := h d List.mem_cons_self
    obtain ⟨x, hx⟩ := SortedMap.contains_eq_true.mp hlowered
    obtain ⟨t, ht, rfl, below, hbelow, hacts⟩ := hpasses x hx
    refine ⟨below ++ x.exports :: more, hbelow.cons ht (exports?_of_lowered hx) hmore, ?_⟩
    intro start first hstart
    have hstep : a.inheritFrom start t.label = start.compose x.passedOn := by
      rw [Assembly.inheritFrom, hx]
    have hlist : first ++ (below ++ x.exports :: more) =
        (first ++ (below ++ [x.exports])) ++ more := by simp
    rw [List.foldlM_cons, hstep, hlist]
    cases hcompose : start.compose x.passedOn with
    | ok next => exact hrest next _ (hstart.compose hacts hcompose)
    | error e =>
      -- the clash is met before the rest is reached
      refine ⟨fun inherited hinherited => (by cases hinherited), ?_⟩
      intro _ _ held reached hall
      obtain ⟨between, hfirst, -⟩ := Bindings.applyEach_append.mp hall
      exact hstart.not_applyEach hacts hcompose held between hfirst

namespace Settled

variable {t : Target}

/-- A target whose dependencies were all lowered is not kept from being tried. -/
theorem free_of_lowered (h : Settled project rules targets a)
    (hlowered : ∀ d ∈ t.dependencies, a.lowered.contains d = true) :
    t.unknown? targets = none ∧ a.blocker? t.dependencies = none := by
  refine ⟨Target.unknown?_eq_none.mpr fun d hd => h.mem_labels_of_lowered (hlowered d hd),
    blocker?_eq_none.mpr fun d hd => ?_⟩
  obtain ⟨u, hu, rfl⟩ := List.mem_map.mp (h.mem_labels_of_lowered (hlowered d hd))
  rcases h.one hu with ⟨-, hf, hs⟩ | ⟨hnot, -⟩ | ⟨hnot, -⟩
  · exact ⟨by simpa using hf, by simpa using hs⟩
  · exact absurd (hlowered u.label hd) hnot
  · exact absurd (hlowered u.label hd) hnot

/-- Every lowered target passes on the tree below it and then what it exports. -/
theorem passesOnTree (h : Settled project rules targets a) (hschedule : Schedule targets visits) :
    ∀ t ∈ targets, PassesOnTree targets a t.label := by
  intro t ht
  refine Preceded.induction (P := fun t => PassesOnTree targets a t.label)
    hschedule.preceded ?_ t (hschedule.perm.mem_iff.mpr ht)
  intro t ht ih x hx
  replace ht := hschedule.perm.mem_iff.mp ht
  obtain ⟨edges, hknown, hfree, hattempt⟩ := h.attempt_of_lowered ht hx
  -- the dependencies were visited before, so what they pass on is known
  have hdeps : ∀ d ∈ t.dependencies,
      a.lowered.contains d = true ∧ PassesOnTree targets a d := by
    intro d hd
    obtain ⟨u, hu, rfl⟩ := List.mem_map.mp (Target.unknown?_eq_none.mp hknown d hd)
    exact ⟨h.lowered_of_free hknown hfree hd, ih u ⟨hu, hd⟩⟩
  obtain ⟨deltas, hunfolding, hinherit⟩ := inherit_from_passesOnTree hdeps
  obtain ⟨env, after, products, -, -, hinh, -, -, hcompose, hexports, -⟩ :=
    Assembly.attempt_eq_ok hattempt
  have hacts := (hinherit .empty [] Delta.actsAs_empty).1 x.inherited hinh
  rw [← hexports] at hcompose
  exact ⟨t, ht, rfl, deltas, hunfolding, hacts.compose (Delta.actsAs_self _) hcompose⟩

/-- A target whose dependencies were lowered inherits what the tree below it does, or clashes if the
tree does. -/
theorem inherit_tree (h : Settled project rules targets a) (hschedule : Schedule targets visits)
    (hlowered : ∀ d ∈ t.dependencies, a.lowered.contains d = true) :
    ∃ deltas, Unfolding targets a t.dependencies deltas ∧
      (∀ inherited, a.inherit t.dependencies = .ok inherited → inherited.ActsAs deltas) ∧
      (∀ e, a.inherit t.dependencies = .error e →
        ∀ held reached : Bindings, held.applyEach deltas ≠ .ok reached) := by
  have hdeps : ∀ d ∈ t.dependencies,
      a.lowered.contains d = true ∧ PassesOnTree targets a d := by
    intro d hd
    obtain ⟨u, hu, rfl⟩ := List.mem_map.mp (h.mem_labels_of_lowered (hlowered d hd))
    exact ⟨hlowered u.label hd, h.passesOnTree hschedule u hu⟩
  obtain ⟨deltas, hunfolding, hinherit⟩ := inherit_from_passesOnTree hdeps
  exact ⟨deltas, hunfolding, hinherit .empty [] Delta.actsAs_empty⟩

/-- What a lowered target inherits does what the tree below it does. -/
theorem inherited_actsAs (h : Settled project rules targets a)
    (hschedule : Schedule targets visits) (ht : t ∈ targets) {x : Lowering}
    (hx : a.lowered.get? t.label = some x) :
    ∃ deltas, Unfolding targets a t.dependencies deltas ∧ x.inherited.ActsAs deltas := by
  have hdeps : ∀ d ∈ t.dependencies, a.lowered.contains d = true := fun d hd =>
    h.lowered_dependency ht (SortedMap.contains_of_get? hx) hd
  obtain ⟨deltas, hunfolding, hacts, -⟩ := h.inherit_tree hschedule hdeps
  obtain ⟨edges, -, -, hattempt⟩ := h.attempt_of_lowered ht hx
  obtain ⟨-, -, -, -, -, hinherit, -⟩ := Assembly.attempt_eq_ok hattempt
  exact ⟨deltas, hunfolding, hacts x.inherited hinherit⟩

/-- If the tree below a target clashes, the target fails with a clash. -/
theorem failure_of_tree (h : Settled project rules targets a)
    (hschedule : Schedule targets visits) (ht : t ∈ targets)
    (hlowered : ∀ d ∈ t.dependencies, a.lowered.contains d = true) {deltas : List Delta}
    (hunfolding : Unfolding targets a t.dependencies deltas)
    (hclash : ∀ reached, Bindings.empty.applyEach deltas ≠ .ok reached) :
    ∃ field, a.failures.get? t.label = some ⟨t.label, .delta (.kindMismatch field)⟩ := by
  obtain ⟨others, hothers, hacts, -⟩ := h.inherit_tree hschedule hlowered
  obtain rfl := hothers.unique hschedule.distinct hunfolding
  -- what was inherited could be applied to nothing, so nothing was
  obtain ⟨field, hinherit⟩ : ∃ field, a.inherit t.dependencies = .error (.kindMismatch field) := by
    cases hinherit : a.inherit t.dependencies with
    | ok inherited =>
      exact absurd ((hacts inherited hinherit _ _).mp inherited.apply_empty) (hclash _)
    | error e =>
      cases e
      exact ⟨_, rfl⟩
  have hattempt : (a.attempt project rules t).1 =
      .error ⟨t.label, .delta (.kindMismatch field)⟩ := by
    rw [Assembly.attempt_eq, hinherit]
  obtain ⟨hknown, hfree⟩ := h.free_of_lowered hlowered
  rcases h.entry_cases ht with
    ⟨x, edges, -, -, hok, -⟩ | ⟨d, hd, -⟩ | ⟨e, -, -, he, hentry⟩ | ⟨cause, -, hcause, -⟩
  · rw [hattempt] at hok
    cases hok
  · rw [hknown] at hd
    cases hd
  · rw [hattempt] at he
    obtain rfl := Except.error.inj he
    exact ⟨field, (Assembly.entry_eq_iff.mp hentry).2.1⟩
  · rw [hfree] at hcause
    cases hcause

end Settled

/-- What targets inherit, told by the trees below them. -/
structure InheritsTrees (targets : List Target) (a : Assembly) : Prop where
  /-- A target that is lowered, or all of whose dependencies are, has a tree below it, and one only. -/
  unfolds : ∀ t ∈ targets,
    (a.lowered.contains t.label ∨ ∀ d ∈ t.dependencies, a.lowered.contains d) →
    ∃! deltas, Unfolding targets a t.dependencies deltas
  /-- The bindings of a lowered target are what the tree below it makes of none, and what it exports
  itself can follow. -/
  lowered : ∀ t ∈ targets, a.lowered.contains t.label →
    ∀ deltas, Unfolding targets a t.dependencies deltas →
    ∃ bindings exports after, Bindings.empty.applyEach deltas = .ok bindings ∧
      a.bindings? t.label = some bindings ∧ a.exports? t.label = some exports ∧
      exports.apply bindings = .ok after
  /-- A target below which the tree clashes fails for that reason, if its dependencies do not. -/
  failed : ∀ t ∈ targets, (∀ d ∈ t.dependencies, a.lowered.contains d) →
    ∀ deltas, Unfolding targets a t.dependencies deltas →
    ∀ clash, Bindings.empty.applyEach deltas = .error clash →
    ∃ field, a.failures.get? t.label = some ⟨t.label, .delta (.kindMismatch field)⟩

/-- Whatever the targets export, they inherit as if every delta were applied on its own, once for each
way that leads to it. -/
theorem inheritsTrees_of_assemble (distinct : (targets.map Target.label).Nodup)
    (h : assemble project rules targets = .ok a) : InheritsTrees targets a := by
  obtain ⟨visits, hschedule, ha⟩ := exists_schedule distinct h
  have hsettled : Settled project rules targets a := ha ▸ hschedule.settled
  refine ⟨?_, ?_, ?_⟩
  · intro t ht hlowered
    have hdeps : ∀ d ∈ t.dependencies, a.lowered.contains d = true := by
      rcases hlowered with hlowered | hdeps
      · exact fun d hd => hsettled.lowered_dependency ht hlowered hd
      · exact hdeps
    obtain ⟨deltas, hunfolding, -⟩ := hsettled.inherit_tree hschedule hdeps
    exact ⟨deltas, hunfolding, fun _ hother => hother.unique distinct hunfolding⟩
  · intro t ht hlowered deltas hunfolding
    obtain ⟨x, hx⟩ := SortedMap.contains_eq_true.mp hlowered
    obtain ⟨others, hothers, hacts⟩ := hsettled.inherited_actsAs hschedule ht hx
    obtain rfl := hothers.unique distinct hunfolding
    have hbindings := (hacts _ _).mp x.inherited.apply_empty
    obtain ⟨edges, -, -, hattempt⟩ := hsettled.attempt_of_lowered ht hx
    obtain ⟨-, -, products, -, -, -, -, -, hcompose, hexports, -⟩ :=
      Assembly.attempt_eq_ok hattempt
    -- what it passes on can be applied to nothing, and that goes by way of the bindings
    obtain ⟨between, hbetween, hafter⟩ :=
      (Delta.apply_of_compose hcompose).mp x.passedOn.apply_empty
    rw [x.inherited.apply_empty] at hbetween
    obtain rfl := Except.ok.inj hbetween
    exact ⟨x.inherited.bindings, x.exports, _, hbindings, bindings?_of_lowered hx,
      exports?_of_lowered hx, hexports ▸ hafter⟩
  · intro t ht hdeps deltas hunfolding clash hclash
    refine hsettled.failure_of_tree hschedule ht hdeps hunfolding fun reached hreached => ?_
    rw [hclash] at hreached
    cases hreached

namespace Sample

/-- A diamond: both sides depend on `base`, whose `mode` the left one replaces. -/
def sides : List Target :=
  [Stated.target { label := top, dependencies := [left, right] },
    Stated.target { label := right, dependencies := [base],
                    exports := Delta.appending [("flags", ["-g", "-g"])] },
    Stated.target { label := left, dependencies := [base],
                    exports := Delta.empty.withOverride "mode" "new" },
    Stated.target { label := base,
                    exports := (Delta.appending [("flags", ["-O"])]).withOverride "mode" "old" }]

/-- The diamond, and a target that inherits `flags` both as a list and as a scalar. -/
def torn : List Target :=
  Stated.target { label := leaf, dependencies := [right, lost] } ::
    Stated.target { label := lost, exports := Delta.empty.withOverride "flags" "none" } :: sides

end Sample

theorem inheritsTrees_sample : (Sample.torn.map Target.label).Nodup ∧
    ∃ a, assemble Sample.bare .empty Sample.torn = .ok a ∧
      a.lowered.contains Sample.top = true ∧ a.failures.contains Sample.leaf = true ∧
      InheritsTrees Sample.torn a := by
  have distinct : (Sample.torn.map Target.label).Nodup := by decide
  have hoks : (assemble Sample.bare .empty Sample.torn).toOption.map (fun a =>
      (a.lowered.contains Sample.top, a.failures.contains Sample.leaf)) = some (true, true) := by
    decide
  obtain ⟨a, ha, hoks⟩ := Option.map_eq_some_iff.mp hoks
  obtain ⟨htop, hleaf⟩ := Prod.mk.inj hoks
  replace ha := eq_ok_of_toOption ha
  exact ⟨distinct, a, ha, htop, hleaf, inheritsTrees_of_assemble distinct ha⟩

end BuildGraph
