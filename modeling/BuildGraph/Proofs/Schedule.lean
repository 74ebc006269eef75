import BuildGraph.Proofs.Precedence
import BuildGraph.Schedule
import Mathlib.Data.Fintype.Card

/-!
# Orders follow the arcs

`Graph.order` answers with all nodes, each once and each after the nodes with an arc to it, or names
a node on a cycle; it does the former exactly for the graphs without cycles.

The invariant of the walk speaks of the open nodes, those entered and not left: a visit starts where
every open node leads to the node visited, and leaves the same nodes open. So when a node is left,
whatever its arcs lead to was left before, or is open and leads back to it.

The first node is entered first, and everything else that is left before it was entered from it. So
an order puts behind the first node only what this node leads to (`transGen_of_order_first`).
-/

namespace BuildGraph.Graph

open Relation

variable {n : Nat} {g : Graph n}

/-- There is an arc from `u` to `v`, so `u` has to come before `v`. -/
def Arc (g : Graph n) (u v : Fin n) : Prop := (u, v) ∈ g.arcs

theorem mem_successors {u v : Fin n} : v ∈ g.successors u ↔ g.Arc u v := by
  simp [successors, Arc]

theorem mem_predecessors {u v : Fin n} : u ∈ g.predecessors v ↔ g.Arc u v := by
  simp [predecessors, Arc]

/-! ## The walk -/

namespace Walk

/-- Entered and not left: the nodes on the way to where the walk stands. -/
def Open (walk : Walk n) (v : Fin n) : Prop := v ∈ walk.entered ∧ v ∉ walk.left

/-- What holds of a walk between any two visits. -/
structure Consistent (g : Graph n) (walk : Walk n) : Prop where
  entered_nodup : walk.entered.Nodup
  left_nodup : walk.left.Nodup
  left_entered : ∀ v ∈ walk.left, v ∈ walk.entered
  /-- What a node that was left has an arc to was left before it, or leads back to it. -/
  closed : ∀ later v earlier, walk.left = later ++ v :: earlier →
    ∀ s, g.Arc v s → s ∈ earlier ∨ ReflTransGen g.Arc s v

/-- What visiting the nodes `vs` makes of a walk. -/
structure Visited (g : Graph n) (before : Walk n) (vs : List (Fin n)) (after : Walk n) : Prop where
  consistent : after.Consistent g
  entered : before.entered <:+ after.entered
  opened : ∀ v, after.Open v ↔ before.Open v
  reached : ∀ v ∈ vs, v ∈ after.entered

theorem Visited.nil {walk : Walk n} (h : walk.Consistent g) : walk.Visited g [] walk :=
  ⟨h, List.suffix_refl _, fun _ => Iff.rfl, by simp⟩

theorem Visited.cons {first second third : Walk n} {v : Fin n} {vs : List (Fin n)}
    (hv : first.Visited g [v] second) (hvs : second.Visited g vs third) :
    first.Visited g (v :: vs) third := by
  refine ⟨hvs.consistent, hv.entered.trans hvs.entered,
    fun u => (hvs.opened u).trans (hv.opened u), ?_⟩
  intro u hu
  rcases List.mem_cons.mp hu with rfl | hu
  · exact hvs.entered.subset (hv.reached u List.mem_cons_self)
  · exact hvs.reached u hu

theorem consistent_start : (⟨[], []⟩ : Walk n).Consistent g where
  entered_nodup := List.nodup_nil
  left_nodup := List.nodup_nil
  left_entered := by simp
  closed := by
    intro later v earlier h
    simp at h

/-- A walk that has entered as many nodes as there are has entered every node. -/
theorem Consistent.mem_entered {walk : Walk n} (h : walk.Consistent g)
    (hn : n ≤ walk.entered.length) (v : Fin n) : v ∈ walk.entered := by
  have hcard : walk.entered.toFinset.card = Fintype.card (Fin n) := by
    rw [List.toFinset_card_of_nodup h.entered_nodup, Fintype.card_fin]
    exact Nat.le_antisymm (by simpa using h.entered_nodup.length_le_card) hn
  have huniv := Finset.eq_univ_of_card _ hcard
  exact List.mem_toFinset.mp (huniv ▸ Finset.mem_univ v)

theorem Consistent.enter {walk : Walk n} (h : walk.Consistent g) {v : Fin n}
    (hv : v ∉ walk.entered) :
    ({ walk with entered := v :: walk.entered } : Walk n).Consistent g where
  entered_nodup := List.nodup_cons.mpr ⟨hv, h.entered_nodup⟩
  left_nodup := h.left_nodup
  left_entered := fun u hu => List.mem_cons_of_mem _ (h.left_entered u hu)
  closed := h.closed

theorem open_enter {walk : Walk n} {v : Fin n} (hv : v ∉ walk.left) (u : Fin n) :
    ({ walk with entered := v :: walk.entered } : Walk n).Open u ↔ u = v ∨ walk.Open u := by
  simp only [Open, List.mem_cons]
  constructor
  · rintro ⟨rfl | hu, hleft⟩
    · exact .inl rfl
    · exact .inr ⟨hu, hleft⟩
  · rintro (rfl | ⟨hu, hleft⟩)
    · exact ⟨.inl rfl, hv⟩
    · exact ⟨.inr hu, hleft⟩

/-- Leaving an open node whose arcs were followed; every open node leads to it. -/
theorem Consistent.leave {walk : Walk n} (h : walk.Consistent g) {v : Fin n} (hv : walk.Open v)
    (hopen : ∀ u, walk.Open u → ReflTransGen g.Arc u v)
    (hsucc : ∀ s ∈ g.successors v, s ∈ walk.entered) :
    ({ walk with left := v :: walk.left } : Walk n).Consistent g where
  entered_nodup := h.entered_nodup
  left_nodup := List.nodup_cons.mpr ⟨hv.2, h.left_nodup⟩
  left_entered := by
    intro u hu
    rcases List.mem_cons.mp hu with rfl | hu
    · exact hv.1
    · exact h.left_entered u hu
  closed := by
    intro later u earlier hleft s hs
    cases later with
    | nil =>
      obtain ⟨rfl, rfl⟩ := List.cons.inj hleft
      by_cases hsl : s ∈ walk.left
      · exact .inl hsl
      · exact .inr (hopen s ⟨hsucc s (mem_successors.mpr hs), hsl⟩)
    | cons w later =>
      exact h.closed later u earlier (List.cons.inj hleft).2 s hs

end Walk

open Walk

/-- Visiting nodes one after another, given what visiting one does. -/
theorem foldl_visited {depth : Nat}
    (hvisit : ∀ (walk : Walk n) (v : Fin n), walk.Consistent g → n ≤ walk.entered.length + depth →
      (∀ u, walk.Open u → ReflTransGen g.Arc u v) → walk.Visited g [v] (g.visit depth walk v))
    (vs : List (Fin n)) (walk : Walk n) (h : walk.Consistent g)
    (hdepth : n ≤ walk.entered.length + depth)
    (hopen : ∀ v ∈ vs, ∀ u, walk.Open u → ReflTransGen g.Arc u v) :
    walk.Visited g vs (vs.foldl (g.visit depth) walk) := by
  induction vs generalizing walk with
  | nil => exact .nil h
  | cons v vs ih =>
    have hv := hvisit walk v h hdepth (hopen v List.mem_cons_self)
    have hlen := hv.entered.length_le
    refine hv.cons (ih _ hv.consistent (by omega) ?_)
    intro w hw u hu
    exact hopen w (List.mem_cons_of_mem _ hw) u ((hv.opened u).mp hu)

/-- A visit, given depth for all nodes not entered yet and that every open node leads to the node
visited, keeps the invariant, opens nothing for good and enters the node. -/
theorem visit_visited (depth : Nat) (walk : Walk n) (v : Fin n) (h : walk.Consistent g)
    (hdepth : n ≤ walk.entered.length + depth)
    (hopen : ∀ u, walk.Open u → ReflTransGen g.Arc u v) :
    walk.Visited g [v] (g.visit depth walk v) := by
  induction depth generalizing walk v with
  | zero =>
    -- no depth is left, so every node has been entered
    refine ⟨h, List.suffix_refl _, fun _ => Iff.rfl, ?_⟩
    intro u _
    exact h.mem_entered hdepth u
  | succ depth ih =>
    rw [visit]
    by_cases hv : v ∈ walk.entered
    · rw [if_pos (List.contains_iff_mem.mpr hv)]
      exact ⟨h, List.suffix_refl _, fun _ => Iff.rfl, by simpa using hv⟩
    · rw [if_neg (by simpa using hv)]
      have hvl : v ∉ walk.left := fun hl => hv (h.left_entered v hl)
      -- `v` is open while its successors are visited, and all open nodes lead to it
      have hinner := foldl_visited ih (g.successors v) { walk with entered := v :: walk.entered }
        (h.enter hv) (by simp only [List.length_cons]; omega) (by
          intro s hs u hu
          have hvs : ReflTransGen g.Arc v s := .single (mem_successors.mp hs)
          rcases (open_enter hvl u).mp hu with rfl | hu
          · exact hvs
          · exact (hopen u hu).trans hvs)
      have hiff := fun u => (hinner.opened u).trans (open_enter hvl u)
      refine ⟨hinner.consistent.leave ((hiff v).mpr (.inl rfl)) ?_ hinner.reached,
        (List.suffix_cons v _).trans hinner.entered, ?_, ?_⟩
      · intro u hu
        rcases (hiff u).mp hu with rfl | hu
        · exact .refl
        · exact hopen u hu
      · -- by now `v` is left, so what is open is what was open before
        intro u
        have hu := hiff u
        simp only [Open, List.mem_cons, not_or] at hu ⊢
        constructor
        · rintro ⟨hent, hne, hleft⟩
          exact (hu.mp ⟨hent, hleft⟩).resolve_left hne
        · intro huw
          obtain ⟨hent, hleft⟩ := hu.mpr (.inr huw)
          exact ⟨hent, fun huv => hv (huv ▸ huw.1), hleft⟩
      · intro u hu
        obtain rfl := List.mem_singleton.mp hu
        exact hinner.entered.subset List.mem_cons_self

theorem walk_visited : (⟨[], []⟩ : Walk n).Visited g (List.finRange n) g.walk :=
  foldl_visited (visit_visited n) _ _ consistent_start (by simp) (by simp [Open])

/-- A walk from the start leaves every node that it enters, since nothing is open at the start. -/
theorem Walk.Visited.mem_left {vs : List (Fin n)} {walk : Walk n}
    (h : (⟨[], []⟩ : Walk n).Visited g vs walk) {v : Fin n} (hv : v ∈ walk.entered) :
    v ∈ walk.left := by
  by_contra hleft
  have hopen := (h.opened v).mp ⟨hv, hleft⟩
  simp [Open] at hopen

/-- The walk enters all nodes, so it leaves them all. -/
theorem mem_left_walk (v : Fin n) : v ∈ g.walk.left :=
  walk_visited.mem_left (walk_visited.reached v (List.mem_finRange v))

/-! ## Orders and cycles -/

theorem backArc?_eq_none {passed rest : List (Fin n)} (h : g.backArc? passed rest = none)
    (before : List (Fin n)) (v : Fin n) (after : List (Fin n)) (hrest : rest = before ++ v :: after)
    (u : Fin n) (hu : g.Arc u v) : u = v ∨ u ∈ passed ∨ u ∈ before := by
  induction rest generalizing passed before with
  | nil => simp at hrest
  | cons w rest ih =>
    rw [backArc?] at h
    split at h
    next => cases h
    next hfind =>
      cases before with
      | nil =>
        obtain ⟨rfl, rfl⟩ := List.cons.inj hrest
        have hnot := List.find?_eq_none.mp hfind u (mem_predecessors.mpr hu)
        by_cases huw : u = w
        · exact .inl huw
        · simp only [ne_eq, huw, not_false_eq_true, decide_true, Bool.true_and, Bool.not_eq_true',
            List.contains_eq_mem, decide_eq_false_iff_not, Decidable.not_not] at hnot
          exact .inr (.inl hnot)
      | cons w' before =>
        obtain ⟨rfl, htl⟩ := List.cons.inj hrest
        rcases ih h before htl with huv | hp | hb
        · exact .inl huv
        · rcases List.mem_cons.mp hp with rfl | hp
          · exact .inr (.inr List.mem_cons_self)
          · exact .inr (.inl hp)
        · exact .inr (.inr (List.mem_cons_of_mem _ hb))

theorem backArc?_eq_some {passed rest : List (Fin n)} {u : Fin n}
    (h : g.backArc? passed rest = some u) :
    ∃ before v after, rest = before ++ v :: after ∧ g.Arc u v ∧ u ≠ v ∧ u ∉ passed ∧
      u ∉ before := by
  induction rest generalizing passed with
  | nil => simp [backArc?] at h
  | cons w rest ih =>
    rw [backArc?] at h
    split at h
    next p hfind =>
      obtain rfl := Option.some.inj h
      have hp := List.find?_some hfind
      simp only [ne_eq, Bool.and_eq_true, decide_eq_true_eq, Bool.not_eq_true',
        List.contains_eq_mem, decide_eq_false_iff_not] at hp
      exact ⟨[], w, rest, rfl, mem_predecessors.mp (List.mem_of_find?_eq_some hfind), hp.1, hp.2,
        by simp⟩
    next =>
      obtain ⟨before, v, after, hrest, harc, hne, hp, hb⟩ := ih h
      simp only [List.mem_cons, not_or] at hp
      exact ⟨w :: before, v, after, by rw [hrest]; rfl, harc, hne, hp.2, by simp [hp.1, hb]⟩

/-- An order lists every node once, each after the nodes with an arc to it. -/
theorem order_eq_ok {order : List (Fin n)} (h : g.order = .ok order) :
    order.Nodup ∧ (∀ v, v ∈ order) ∧ Preceded (fun v u => g.Arc u v) order := by
  rw [Graph.order] at h
  split at h
  next => cases h
  next hself =>
    split at h
    next => cases h
    next hback =>
      obtain rfl := Except.ok.inj h
      have hwalk := (walk_visited (g := g))
      refine ⟨hwalk.consistent.left_nodup, mem_left_walk, ?_⟩
      intro before v after hleft u hu
      rcases backArc?_eq_none hback before v after hleft u hu with rfl | hp | hb
      · have hent := hwalk.reached u (List.mem_finRange u)
        have hnot := List.find?_eq_none.mp hself u (List.mem_reverse.mpr hent)
        exact absurd (List.contains_iff_mem.mpr (mem_successors.mpr hu)) hnot
      · simp at hp
      · exact hb

/-- The node named instead of an order is on a cycle. -/
theorem order_eq_error {v : Fin n} (h : g.order = .error v) : TransGen g.Arc v v := by
  rw [Graph.order] at h
  split at h
  next w hself =>
    obtain rfl := Except.error.inj h
    have hw := List.find?_some (p := fun v => (g.successors v).contains v) hself
    exact .single (mem_successors.mp (List.contains_iff_mem.mp hw))
  next =>
    split at h
    next w hback =>
      obtain rfl := Except.error.inj h
      obtain ⟨before, v, after, hleft, harc, hne, -, hb⟩ := backArc?_eq_some hback
      -- the source of the arc was left before the node that it leads to
      have hafter : w ∈ after := by
        have hw := mem_left_walk (g := g) w
        simp only [hleft, List.mem_append, List.mem_cons] at hw
        exact (hw.resolve_left hb).resolve_left hne
      obtain ⟨later, earlier, rfl⟩ := List.append_of_mem hafter
      have hwalk := (walk_visited (g := g)).consistent
      rcases hwalk.closed (before ++ v :: later) w earlier (by simp [hleft]) v harc with hv | hv
      · have hnd := hwalk.left_nodup
        rw [hleft] at hnd
        have hnot := (List.nodup_cons.mp (List.nodup_append.mp hnd).2.1).1
        exact absurd (List.mem_append_right _ (List.mem_cons_of_mem _ hv)) hnot
      · exact TransGen.head' harc hv
    next => cases h

/-- There is an order exactly if no node leads to itself. -/
theorem exists_order_iff : (∃ order, g.order = .ok order) ↔ ∀ v, ¬ TransGen g.Arc v v := by
  constructor
  · rintro ⟨order, h⟩ v hv
    obtain ⟨hnd, hall, hprec⟩ := order_eq_ok h
    refine hprec.not_transGen_self hnd (hall v) ?_
    exact transGen_swap.mp hv
  · intro hacyclic
    cases h : g.order with
    | ok order => exact ⟨order, rfl⟩
    | error v => exact absurd (order_eq_error h) (hacyclic v)

/-! ## The first node -/

/-- What entering a node with `Q` and leaving a node keep is kept by visiting a node with `Q`, if
arcs lead from nodes with `Q` to nodes with `Q` only. -/
theorem visit_keeps {P : Walk n → Prop} {Q : Fin n → Prop} (hQ : ∀ u v, Q u → g.Arc u v → Q v)
    (henter : ∀ walk v, Q v → P walk → P { walk with entered := v :: walk.entered })
    (hleave : ∀ walk v, P walk → P { walk with left := v :: walk.left })
    (depth : Nat) (walk : Walk n) (v : Fin n) (hv : Q v) (h : P walk) :
    P (g.visit depth walk v) := by
  induction depth generalizing walk v with
  | zero => exact h
  | succ depth ih =>
    rw [visit]
    split
    · exact h
    · refine hleave _ v (List.foldlRecOn _ _ (henter walk v hv h) fun walk hwalk s hs => ?_)
      exact ih walk s (hQ v s hv (mem_successors.mp hs)) hwalk

/-- Visiting a node enters nothing that the node does not lead to. -/
theorem reflTransGen_of_mem_visit {depth : Nat} {v u : Fin n}
    (hu : u ∈ (g.visit depth ⟨[], []⟩ v).entered) : ReflTransGen g.Arc v u := by
  refine visit_keeps (P := fun walk => ∀ u ∈ walk.entered, ReflTransGen g.Arc v u)
    (Q := ReflTransGen g.Arc v) (fun _ _ hu => hu.tail) (fun walk w hw hwalk u hu => ?_)
    (fun walk w hwalk => hwalk) depth ⟨[], []⟩ v .refl (by simp) u hu
  rcases List.mem_cons.mp hu with rfl | hu
  · exact hw
  · exact hwalk u hu

/-- Visits put nodes before those that were left already. -/
theorem suffix_foldl_visit (depth : Nat) (vs : List (Fin n)) (walk : Walk n) :
    walk.left <:+ (vs.foldl (g.visit depth) walk).left := by
  refine List.foldlRecOn (motive := fun after : Walk n => walk.left <:+ after.left) vs _
    List.suffix_rfl ?_
  intro after hafter v _
  exact visit_keeps (P := fun walk' => walk.left <:+ walk'.left) (Q := fun _ => True)
    (fun _ _ _ _ => trivial) (fun _ _ _ h => h)
    (fun _ u h => h.trans (List.suffix_cons u _)) depth after v trivial hafter

theorem eq_left_of_order {order : List (Fin n)} (h : g.order = .ok order) :
    order = g.walk.left := by
  rw [Graph.order] at h
  split at h
  next => cases h
  next =>
    split at h <;> cases h
    rfl

/-- The walk starts with the visit of the first node. -/
theorem suffix_walk {v : Fin n} (hv : v.val = 0) :
    (g.visit n ⟨[], []⟩ v).left <:+ g.walk.left := by
  rw [walk]
  cases n with
  | zero => exact v.elim0
  | succ n =>
    obtain rfl : v = 0 := Fin.ext hv
    rw [List.finRange_succ, List.foldl_cons]
    exact suffix_foldl_visit _ _ _

/-- So an order puts behind the first node only what this node leads to. -/
theorem transGen_of_order_first {before after : List (Fin n)} {v : Fin n} (hv : v.val = 0)
    (h : g.order = .ok (before ++ v :: after)) : ∀ u ∈ after, TransGen g.Arc v u := by
  intro u hu
  have hnd := (order_eq_ok h).1
  have hnot : v ∉ before ++ after := (List.nodup_cons.mp (List.nodup_middle.mp hnd)).1
  rw [List.mem_append, not_or] at hnot
  have hfirst := visit_visited (g := g) n ⟨[], []⟩ v consistent_start (by simp) (by simp [Open])
  obtain ⟨later, earlier, hsplit⟩ :=
    List.append_of_mem (hfirst.mem_left (hfirst.reached v List.mem_cons_self))
  -- what is behind `v` in the order was left when the visit of `v` ended
  obtain ⟨start, hstart⟩ := suffix_walk (g := g) hv
  rw [← eq_left_of_order h, hsplit, ← List.append_assoc] at hstart
  obtain ⟨-, -, rfl⟩ := (List.append_cons_inj_of_notMem hnot.1 hnot.2).mp hstart.symm
  have hmem : u ∈ (g.visit n ⟨[], []⟩ v).left := hsplit ▸ by simp [hu]
  have hreach := reflTransGen_of_mem_visit (hfirst.consistent.left_entered u hmem)
  rcases reflTransGen_iff_eq_or_transGen.mp hreach with rfl | hreach
  · exact absurd hu hnot.2
  · exact hreach

end BuildGraph.Graph
