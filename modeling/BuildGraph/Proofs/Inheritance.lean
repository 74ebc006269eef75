import BuildGraph.Proofs.Outcomes

/-!
# What announcing targets inherit

A target that announces itself adds its label to the implicit field of its consumers and does
nothing else to them. If all targets do that, deltas are lists of labels and never clash, and what a
target inherits is the list of everything that it depends on, near or far, each label once and after
the labels of what it depends on itself (`Settled.inherit_eq`).
-/

namespace BuildGraph

open Relation

/-! ## Lists of labels -/

theorem preceded_extendUnique {α : Type} [DecidableEq α] {needs : α → α → Prop} {list more : List α}
    (hlist : Preceded needs list) (hmore : Preceded needs more) :
    Preceded needs (extendUnique list more) := by
  induction more using List.reverseRecOn with
  | nil => exact hlist
  | append_singleton more x ih =>
    obtain ⟨hmore, hx⟩ := preceded_snoc.mp hmore
    rw [extendUnique_append, extendUnique, extendUnique]
    split
    · exact ih hmore
    · exact preceded_snoc.mpr
        ⟨ih hmore, fun y hy => mem_extendUnique.mpr (.inr (hx y hy))⟩

/-- Exactly the labels with a property, each once and after the labels that it needs. -/
structure Enumerates (needs : Label → Label → Prop) (P : Label → Prop) (labels : List Label) :
    Prop where
  nodup : labels.Nodup
  mem_iff : ∀ l, l ∈ labels ↔ P l
  preceded : Preceded needs labels

namespace Enumerates

variable {needs : Label → Label → Prop} {P Q : Label → Prop} {labels more : List Label}

theorem nil (h : ∀ l, ¬ P l) : Enumerates needs P [] :=
  ⟨.nil, fun l => by simp [h l], .nil⟩

theorem congr (h : Enumerates needs P labels) (hPQ : ∀ l, P l ↔ Q l) : Enumerates needs Q labels :=
  ⟨h.nodup, fun l => (h.mem_iff l).trans (hPQ l), h.preceded⟩

theorem extend (h : Enumerates needs P labels) (hmore : Enumerates needs Q more) :
    Enumerates needs (fun l => P l ∨ Q l) (extendUnique labels more) := by
  refine ⟨nodup_extendUnique h.nodup more, fun l => ?_, ?_⟩
  · rw [mem_extendUnique, h.mem_iff, hmore.mem_iff]
  · exact preceded_extendUnique h.preceded hmore.preceded

/-- A label may follow once everything that it needs is listed. -/
theorem push (h : Enumerates needs P labels) {l : Label} (hl : ∀ d, needs l d → P d) :
    Enumerates needs (fun d => P d ∨ d = l) (extendUnique labels [l]) := by
  refine ⟨nodup_extendUnique h.nodup _, fun d => ?_, ?_⟩
  · rw [mem_extendUnique, h.mem_iff, List.mem_singleton]
  · rw [extendUnique, extendUnique]
    split
    · exact h.preceded
    · exact preceded_snoc.mpr ⟨h.preceded, fun d hd => (h.mem_iff d).mpr (hl d hd)⟩

end Enumerates

/-! ## Deltas that announce labels -/

namespace Delta

/-- The delta that announces labels, in order. -/
def announcing : List Label → Delta
  | [] => .empty
  | labels => ⟨SortedMap.empty.insert implicitField (.append (labels.map Label.text))⟩

theorem announcement_eq (l : Label) : announcement l = announcing [l] := rfl

theorem announcing_of_ne_nil {labels : List Label} (h : labels ≠ []) : announcing labels =
    ⟨SortedMap.empty.insert implicitField (.append (labels.map Label.text))⟩ := by
  cases labels with
  | nil => exact absurd rfl h
  | cons l labels => rfl

/-- Announcing some labels and then more announces each of them once. -/
theorem compose_announcing (labels more : List Label) :
    (announcing labels).compose (announcing more) =
      .ok (announcing (extendUnique labels more)) := by
  cases more with
  | nil => rfl
  | cons l more =>
    have hne : extendUnique labels (l :: more) ≠ [] := by
      intro hnil
      have hl : l ∈ extendUnique labels (l :: more) :=
        mem_extendUnique.mpr (.inr List.mem_cons_self)
      simp [hnil] at hl
    rw [announcing_of_ne_nil hne, ← extendUnique_map fun _ _ => Label.text_injective]
    show (pushAll (announcing labels).ops
      [(implicitField, .append ((l :: more).map Label.text))]).map mk = _
    cases labels with
    | nil => rfl
    | cons k labels =>
      rw [announcing_of_ne_nil (List.cons_ne_nil k labels), pushAll, push,
        SortedMap.get?_insert_self]
      show Except.ok (mk ((SortedMap.insert _ _ _).insert _ _)) = _
      rw [SortedMap.insert_insert_self]

theorem list_bindings_announcing {labels : List Label} (h : labels.Nodup) :
    (announcing labels).bindings.list implicitField = labels.map Label.text := by
  rw [Bindings.list, get?_bindings, get?]
  cases labels with
  | nil => rfl
  | cons l labels =>
    have htexts : ((l :: labels).map Label.text).Nodup := h.map fun _ _ => Label.text_injective
    rw [announcing_of_ne_nil (List.cons_ne_nil l labels), SortedMap.get?_insert_self]
    exact firstOccurrences_eq_self htexts

end Delta

/-! ## Announcing targets -/

/-- If the target is lowered, its consumers learn its label and nothing else. -/
def Target.Announces (project : Project) (t : Target) : Prop :=
  ∀ environment after products, t.resolve project = (.ok environment, after) →
    after.products = .ok products → products.exports = announcement t.label

variable {project : Project} {rules : RuleTable} {targets visits : List Target} {a : Assembly}

/-- If `l` is lowered, its consumers inherit the label and everything that it depends on. -/
def PassesOn (targets : List Target) (a : Assembly) (l : Label) : Prop :=
  ∀ x, a.lowered.get? l = some x → ∃ labels, x.passedOn = .announcing labels ∧
    Enumerates (DependsOn targets) (ReflTransGen (DependsOn targets) l) labels

/-- What is inherited from lowered dependencies is everything that they pass on. -/
theorem inherit_of_passesOn {dependencies : List Label}
    (h : ∀ d ∈ dependencies, a.lowered.contains d = true ∧ PassesOn targets a d) :
    ∃ labels, a.inherit dependencies = .ok (.announcing labels) ∧
      Enumerates (DependsOn targets)
        (fun e => ∃ d ∈ dependencies, ReflTransGen (DependsOn targets) d e) labels := by
  induction dependencies using List.reverseRecOn with
  | nil => exact ⟨[], rfl, .nil (by simp)⟩
  | append_singleton dependencies d ih =>
    obtain ⟨labels, hlabels, henum⟩ := ih fun e he => h e (List.mem_append_left _ he)
    obtain ⟨hlowered, hpasses⟩ := h d (by simp)
    obtain ⟨x, hx⟩ := SortedMap.contains_eq_true.mp hlowered
    obtain ⟨more, hmore, henum'⟩ := hpasses x hx
    refine ⟨extendUnique labels more, ?_, (henum.extend henum').congr fun e => ?_⟩
    · have hnext : a.inheritFrom (.announcing labels) d =
          .ok (.announcing (extendUnique labels more)) := by
        rw [Assembly.inheritFrom, hx]
        simp only [hmore, Delta.compose_announcing]
      rw [Assembly.inherit, List.foldlM_append, ← Assembly.inherit, hlabels]
      show (a.inheritFrom (.announcing labels) d >>= pure) = _
      rw [hnext]
      rfl
    · simp [or_and_right, exists_or]

/-- What a target depends on, near or far, is what its dependencies lead to. -/
theorem transGen_dependsOn_iff (distinct : (targets.map Target.label).Nodup) {t : Target}
    (ht : t ∈ targets) {e : Label} : TransGen (DependsOn targets) t.label e ↔
      ∃ d ∈ t.dependencies, ReflTransGen (DependsOn targets) d e := by
  rw [TransGen.head'_iff]
  constructor
  · rintro ⟨d, ⟨u, hu, hut, hd⟩, hde⟩
    obtain rfl := eq_of_label_eq distinct hu ht hut
    exact ⟨d, hd, hde⟩
  · rintro ⟨d, hd, hde⟩
    exact ⟨d, ⟨t, ht, rfl, hd⟩, hde⟩

namespace Settled

variable {t : Target}

/-- A target that nothing blocks inherits the labels of all that it depends on, if these pass theirs
on. -/
theorem inherit_eq_of_dependencies (h : Settled project rules targets a)
    (distinct : (targets.map Target.label).Nodup) (ht : t ∈ targets)
    (hknown : t.unknown? targets = none) (hfree : a.blocker? t.dependencies = none)
    (hpasses : ∀ u ∈ targets, u.label ∈ t.dependencies → PassesOn targets a u.label) :
    ∃ labels, a.inherit t.dependencies = .ok (.announcing labels) ∧
      Enumerates (DependsOn targets) (TransGen (DependsOn targets) t.label) labels := by
  have hdeps : ∀ d ∈ t.dependencies, a.lowered.contains d = true ∧ PassesOn targets a d := by
    intro d hd
    obtain ⟨u, hu, rfl⟩ := List.mem_map.mp (Target.unknown?_eq_none.mp hknown d hd)
    exact ⟨h.lowered_of_free hknown hfree hd, hpasses u hu hd⟩
  obtain ⟨labels, hinherit, henum⟩ := inherit_of_passesOn hdeps
  exact ⟨labels, hinherit, henum.congr fun e => (transGen_dependsOn_iff distinct ht).symm⟩

/-- Every lowered target passes on its label after the labels of all that it depends on. -/
theorem passesOn (h : Settled project rules targets a) (hschedule : Schedule targets visits)
    (hannounces : ∀ t ∈ targets, t.Announces project) :
    ∀ t ∈ targets, PassesOn targets a t.label := by
  intro t ht
  refine Preceded.induction (P := fun t => PassesOn targets a t.label)
    hschedule.preceded ?_ t (hschedule.perm.mem_iff.mpr ht)
  intro t ht ih x hx
  replace ht := hschedule.perm.mem_iff.mp ht
  obtain ⟨edges, hknown, hfree, hattempt⟩ := h.attempt_of_lowered ht hx
  -- the dependencies were visited before, so what they pass on is known
  obtain ⟨labels, hinherit, henum⟩ :=
    h.inherit_eq_of_dependencies hschedule.distinct ht hknown hfree fun u hu hd => ih u ⟨hu, hd⟩
  obtain ⟨env, after, products, hres, hp, hinh, -, -, hcompose, -⟩ :=
    Assembly.attempt_eq_ok hattempt
  rw [hinherit] at hinh
  rw [← Except.ok.inj hinh, hannounces t ht env after products hres hp, Delta.announcement_eq,
    Delta.compose_announcing] at hcompose
  refine ⟨extendUnique labels [t.label], (Except.ok.inj hcompose).symm, ?_⟩
  refine (henum.push fun d hd => .single hd).congr fun e => ?_
  rw [reflTransGen_iff_eq_or_transGen, or_comm]

/-- A target that nothing blocks inherits the labels of all that it depends on. -/
theorem inherit_eq (h : Settled project rules targets a) (hschedule : Schedule targets visits)
    (hannounces : ∀ t ∈ targets, t.Announces project) (ht : t ∈ targets)
    (hknown : t.unknown? targets = none) (hfree : a.blocker? t.dependencies = none) :
    ∃ labels, a.inherit t.dependencies = .ok (.announcing labels) ∧
      Enumerates (DependsOn targets) (TransGen (DependsOn targets) t.label) labels := by
  exact h.inherit_eq_of_dependencies hschedule.distinct ht hknown hfree
    fun u hu _ => h.passesOn hschedule hannounces u hu

/-- A lowered target inherits the labels of all that it depends on. -/
theorem inherited_eq (h : Settled project rules targets a) (hschedule : Schedule targets visits)
    (hannounces : ∀ t ∈ targets, t.Announces project) (ht : t ∈ targets) {x : Lowering}
    (hx : a.lowered.get? t.label = some x) :
    ∃ labels, x.inherited = .announcing labels ∧
      Enumerates (DependsOn targets) (TransGen (DependsOn targets) t.label) labels := by
  obtain ⟨edges, hknown, hfree, hattempt⟩ := h.attempt_of_lowered ht hx
  obtain ⟨labels, hinherit, henum⟩ := h.inherit_eq hschedule hannounces ht hknown hfree
  obtain ⟨-, -, -, -, -, hinherited, -⟩ := Assembly.attempt_eq_ok hattempt
  rw [hinherit] at hinherited
  exact ⟨labels, (Except.ok.inj hinherited).symm, henum⟩

end Settled

end BuildGraph
