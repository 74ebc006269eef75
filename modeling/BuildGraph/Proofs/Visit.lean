import BuildGraph.Proofs.Delta
import BuildGraph.Proofs.Edge
import BuildGraph.Proofs.Label

/-!
# One visit

A visit gives its target an outcome (`Assembly.verdict`) and touches no other label. The outcome
depends on what the assembly holds under the labels of the dependencies and on nothing else
(`Assembly.verdict_congr`). That is not plain from the definition: an inherited entry that is the
text of a label is expanded if that target happens to be lowered by then. But expanding trades a
path without line breaks for paths without line breaks, and line breaks are all that a check of the
edges finds in the files waited for.
-/

namespace BuildGraph

/-- What an assembly holds under one label. -/
structure Entry where
  lowering : Option Lowering
  failure : Option TargetError
  cause : Option Label
deriving DecidableEq

/-- Nothing is held under the label. -/
def Entry.blank : Entry := ⟨none, none, none⟩

/-- What becomes of a target. -/
inductive Outcome where
  | lowered (lowering : Lowering)
  | failed (error : TargetError)
  | skipped (cause : Label)

namespace Outcome

/-- What is held under the label of a target with this outcome, and nothing besides. -/
def entry : Outcome → Entry
  | .lowered lowering => ⟨some lowering, none, none⟩
  | .failed error => ⟨none, some error, none⟩
  | .skipped cause => ⟨none, none, some cause⟩

/-- The outcome of an attempt. -/
def ofAttempt : Except TargetError (Lowering × List Edge) → Outcome
  | .error error => .failed error
  | .ok (lowering, _) => .lowered lowering

end Outcome

/-! ## Targets -/

namespace Target

theorem blame_eq_error {α : Type} {t : Target} {result : Except TargetFault α} {e : TargetError}
    (h : t.blame result = .error e) : e.target = t.label := by
  cases result <;> cases h
  rfl

theorem resolve_label (t : Target) (project : Project) : (t.resolve project).2.label = t.label := by
  rw [resolve]
  split
  · rfl
  · split
    · rfl
    · simp only [retain]
      split <;> rfl

theorem resolve_eq_error {t after : Target} {project : Project} {e : TargetError}
    (h : t.resolve project = (.error e, after)) : e.target = t.label := by
  rw [resolve] at h
  split at h
  · cases h
  · split at h <;> cases h
    rfl

theorem products_eq_error {t : Target} {e : TargetError} (h : t.products = .error e) :
    e.target = t.label := by
  rw [products] at h
  split at h
  · cases h
    rfl
  · exact blame_eq_error h

end Target

namespace Assembly

variable {project : Project} {rules : RuleTable} {a b : Assembly} {t : Target}

/-! ## What is held under a label -/

def entry (a : Assembly) (label : Label) : Entry :=
  ⟨a.lowered.get? label, a.failures.get? label, a.skipped.get? label⟩

theorem entry_eq_iff {label : Label} {e : Entry} : a.entry label = e ↔
    a.lowered.get? label = e.lowering ∧ a.failures.get? label = e.failure ∧
      a.skipped.get? label = e.cause := by
  cases e
  simp [entry]

theorem entry_empty (label : Label) : ({} : Assembly).entry label = .blank := rfl

theorem entry_fail (a : Assembly) (e : TargetError) (label : Label) :
    (a.fail e).entry label =
      if label = e.target then { a.entry label with failure := some e } else a.entry label := by
  simp only [entry, fail, SortedMap.get?_insert]
  split <;> rfl

theorem entry_skip (a : Assembly) (target cause label : Label) :
    (a.skip target cause).entry label =
      if label = target then { a.entry label with cause := some cause } else a.entry label := by
  simp only [entry, skip, SortedMap.get?_insert]
  split <;> rfl

theorem entry_record (a : Assembly) (target : Label) (x : Lowering) (edges : List Edge)
    (label : Label) :
    (a.record target x edges).entry label =
      if label = target then { a.entry label with lowering := some x } else a.entry label := by
  simp only [entry, record, SortedMap.get?_insert]
  split <;> rfl

/-! ## What a target inherits -/

theorem blocker?_congr {dependencies : List Label}
    (h : ∀ d ∈ dependencies, a.entry d = b.entry d) :
    a.blocker? dependencies = b.blocker? dependencies := by
  induction dependencies with
  | nil => rfl
  | cons d rest ih =>
    have hf : a.failures.get? d = b.failures.get? d :=
      congrArg Entry.failure (h d List.mem_cons_self)
    have hs : a.skipped.get? d = b.skipped.get? d := congrArg Entry.cause (h d List.mem_cons_self)
    have hd : a.blockerOf? d = b.blockerOf? d := by
      rw [blockerOf?, blockerOf?, SortedMap.contains, SortedMap.contains, hf, hs]
    simp only [blocker?, List.findSome?_cons, hd]
    rw [← blocker?, ← blocker?, ih fun d hd => h d (List.mem_cons_of_mem _ hd)]

theorem inherit_congr {dependencies : List Label}
    (h : ∀ d ∈ dependencies, a.entry d = b.entry d) :
    a.inherit dependencies = b.inherit dependencies := by
  have hfold : ∀ delta : Delta,
      dependencies.foldlM a.inheritFrom delta = dependencies.foldlM b.inheritFrom delta := by
    induction dependencies with
    | nil => intro delta; rfl
    | cons d rest ih =>
      intro delta
      have hl : a.lowered.get? d = b.lowered.get? d :=
        congrArg Entry.lowering (h d List.mem_cons_self)
      simp only [List.foldlM_cons, inheritFrom, hl]
      exact congrArg _ (funext fun next => ih (fun d hd => h d (List.mem_cons_of_mem _ hd)) next)
  exact hfold .empty

theorem prepare_eq (a : Assembly) (t : Target) :
    a.prepare t = match a.inherit t.dependencies with
      | .error e => .error (.delta e)
      | .ok inherited => .ok (inherited, a.implicitPaths inherited.bindings) := by
  rw [prepare]
  cases h : a.inherit t.dependencies with
  | error e => rfl
  | ok inherited =>
    simp only [Except.mapError, bind, Except.bind, Delta.apply_empty]
    rfl

/-! ## Files waited for -/

/-- No output of a lowered target holds a line break. -/
def Clean (a : Assembly) : Prop :=
  ∀ label x, a.lowered.get? label = some x → ∀ path ∈ x.outputs, hasLineBreak path = false

theorem expand_hasLineBreak (h : a.Clean) (text : String) :
    (a.expand text).any hasLineBreak = hasLineBreak text := by
  rw [expand]
  split
  next label hparse =>
    split
    next x hx =>
      rw [Label.hasLineBreak_of_parse hparse, List.any_eq_false]
      intro path hpath
      simp [h label x hx path hpath]
    next => simp
  next => simp

/-- Among the files waited for there is one with a line break exactly if an inherited entry has
one, whatever targets are lowered. -/
theorem implicitPaths_hasLineBreak (h : a.Clean) (bindings : Bindings) :
    (a.implicitPaths bindings).any hasLineBreak =
      (bindings.list implicitField).any hasLineBreak := by
  rw [Bool.eq_iff_iff]
  simp only [implicitPaths, List.any_eq_true, mem_firstOccurrences, List.mem_flatMap]
  constructor
  · rintro ⟨path, ⟨text, htext, hpath⟩, hbreak⟩
    refine ⟨text, htext, ?_⟩
    rw [← expand_hasLineBreak h]
    exact List.any_eq_true.mpr ⟨path, hpath, hbreak⟩
  · rintro ⟨text, htext, hbreak⟩
    rw [← expand_hasLineBreak h] at hbreak
    obtain ⟨path, hpath, hbreak⟩ := List.any_eq_true.mp hbreak
    exact ⟨path, ⟨text, htext, hpath⟩, hbreak⟩

/-! ## Lowering -/

theorem lower_eq_ok {inherited : Delta} {paths : List String} {x : Lowering} {edges : List Edge}
    (h : lower rules t inherited paths = .ok (x, edges)) :
    ∃ products, t.products = .ok products ∧
      edges = products.edges.map (·.waitFor paths) ∧
      (∀ edge ∈ edges, rules.checkEdge edge = .ok ()) ∧
      inherited.compose products.exports = .ok x.passedOn ∧
      x.inherited = inherited ∧ x.exports = products.exports ∧
      x.outputs = edges.flatMap Edge.outputs := by
  rw [lower] at h
  cases hp : t.products with
  | error e => simp [hp, bind, Except.bind] at h
  | ok products =>
    simp only [hp, bind, Except.bind] at h
    cases he : finishEdges rules paths products.edges with
    | error e => simp [he, Target.blame, Except.mapError] at h
    | ok done =>
      simp only [he, Target.blame, Except.mapError] at h
      cases hc : inherited.compose products.exports with
      | error e => simp [hc] at h
      | ok passedOn =>
        simp only [hc, pure, Except.pure, Except.ok.injEq, Prod.mk.injEq] at h
        obtain ⟨rfl, rfl⟩ := h
        obtain ⟨hmap, hall⟩ := finishEdges_eq_ok he
        exact ⟨products, rfl, hmap, hall, hc, rfl, rfl, rfl⟩

theorem lower_eq_error {inherited : Delta} {paths : List String} {e : TargetError}
    (h : lower rules t inherited paths = .error e) : e.target = t.label := by
  rw [lower] at h
  cases hp : t.products with
  | error e' =>
    simp only [hp, bind, Except.bind, Except.error.injEq] at h
    exact h ▸ Target.products_eq_error hp
  | ok products =>
    simp only [hp, bind, Except.bind] at h
    cases he : finishEdges rules paths products.edges with
    | error e' =>
      simp only [he, Target.blame, Except.mapError, Except.error.injEq] at h
      exact h ▸ rfl
    | ok done =>
      simp only [he, Target.blame, Except.mapError] at h
      cases hc : inherited.compose products.exports with
      | error e' =>
        simp only [hc, Except.error.injEq] at h
        exact h ▸ rfl
      | ok passedOn => simp [hc, pure, Except.pure] at h

theorem lower_congr (inherited : Delta) {paths paths' : List String}
    (h : paths.any hasLineBreak = paths'.any hasLineBreak) :
    (lower rules t inherited paths).map Prod.fst =
      (lower rules t inherited paths').map Prod.fst := by
  rw [lower, lower]
  cases t.products with
  | error e => rfl
  | ok products =>
    have hedges := finishEdges_congr rules products.edges h
    cases he : finishEdges rules paths products.edges <;>
      cases he' : finishEdges rules paths' products.edges <;>
      simp only [he, he', Except.map, Except.ok.injEq, Except.error.injEq, reduceCtorEq] at hedges
    next => subst hedges; simp [he, he', bind, Except.bind, Target.blame, Except.mapError]
    next done done' =>
      simp only [he, he', bind, Except.bind, Target.blame, Except.mapError]
      cases inherited.compose products.exports with
      | error e => rfl
      | ok passedOn => simp [pure, Except.pure, Except.map, hedges]

/-! ## Attempts -/

theorem attempt_eq (a : Assembly) (t : Target) :
    (a.attempt project rules t).1 = match a.inherit t.dependencies with
      | .error e => .error ⟨t.label, .delta e⟩
      | .ok inherited =>
        match t.resolve project with
        | (.error e, _) => .error e
        | (.ok _, after) => lower rules after inherited (a.implicitPaths inherited.bindings) := by
  rw [attempt, prepare_eq]
  cases a.inherit t.dependencies with
  | error e => rfl
  | ok inherited =>
    cases hres : t.resolve project with
    | mk result after => cases result <;> rfl

theorem attempt_eq_error {e : TargetError} (h : (a.attempt project rules t).1 = .error e) :
    e.target = t.label := by
  rw [attempt_eq] at h
  split at h
  · cases h
    rfl
  · split at h
    next hres =>
      cases h
      exact Target.resolve_eq_error hres
    next after hres =>
      have hlabel := Target.resolve_label t project
      rw [hres] at hlabel
      exact (lower_eq_error h).trans hlabel

/-- A lowered target: what it inherits, its products, and its edges as they wait and pass. -/
theorem attempt_eq_ok {x : Lowering} {edges : List Edge}
    (h : (a.attempt project rules t).1 = .ok (x, edges)) :
    ∃ env after products, t.resolve project = (.ok env, after) ∧ after.products = .ok products ∧
      a.inherit t.dependencies = .ok x.inherited ∧
      edges = products.edges.map (·.waitFor (a.implicitPaths x.inherited.bindings)) ∧
      (∀ edge ∈ edges, rules.checkEdge edge = .ok ()) ∧
      x.inherited.compose products.exports = .ok x.passedOn ∧
      x.exports = products.exports ∧ x.outputs = edges.flatMap Edge.outputs := by
  rw [attempt_eq] at h
  split at h
  · cases h
  · next inherited hinherit =>
    split at h
    next => cases h
    next env after hres =>
      obtain ⟨products, hp, hedges, hall, hc, rfl, hexports, houtputs⟩ := lower_eq_ok h
      exact ⟨env, after, products, hres, hp, hinherit, hedges, hall, hc, hexports, houtputs⟩

theorem ofAttempt_congr {r r' : Except TargetError (Lowering × List Edge)}
    (h : r.map Prod.fst = r'.map Prod.fst) : Outcome.ofAttempt r = Outcome.ofAttempt r' := by
  cases r <;> cases r' <;> simp_all [Except.map, Outcome.ofAttempt]

theorem attempt_congr (h : ∀ d ∈ t.dependencies, a.entry d = b.entry d)
    (ha : a.Clean) (hb : b.Clean) :
    Outcome.ofAttempt (a.attempt project rules t).1 =
      Outcome.ofAttempt (b.attempt project rules t).1 := by
  rw [attempt_eq, attempt_eq, inherit_congr h]
  cases b.inherit t.dependencies with
  | error e => rfl
  | ok inherited =>
    simp only
    split
    · rfl
    · -- the files waited for may differ, but not in whether one of them holds a line break
      refine ofAttempt_congr (lower_congr inherited ?_)
      rw [implicitPaths_hasLineBreak ha, implicitPaths_hasLineBreak hb]

/-! ## Visits -/

/-- The outcome that a visit gives a target which has not failed before. -/
def verdict (project : Project) (rules : RuleTable) (a : Assembly) (t : Target) : Outcome :=
  match a.blocker? t.dependencies with
  | some cause => .skipped cause
  | none => .ofAttempt (a.attempt project rules t).1

/-- The outcome depends on the entries of the dependencies alone. -/
theorem verdict_congr (h : ∀ d ∈ t.dependencies, a.entry d = b.entry d)
    (ha : a.Clean) (hb : b.Clean) : a.verdict project rules t = b.verdict project rules t := by
  rw [verdict, verdict, blocker?_congr h]
  cases b.blocker? t.dependencies with
  | some cause => rfl
  | none => exact attempt_congr h ha hb

/-- The edges that a visit adds. -/
def block (project : Project) (rules : RuleTable) (a : Assembly) (t : Target) : List Edge :=
  if a.failures.contains t.label then []
  else
    match a.blocker? t.dependencies with
    | some _ => []
    | none =>
      match (a.attempt project rules t).1 with
      | .error _ => []
      | .ok (_, edges) => edges

/-- The assembly after a visit. -/
def next (project : Project) (rules : RuleTable) (a : Assembly) (t : Target) : Assembly :=
  (a.visit project rules t).1

theorem next_of_failed (h : a.failures.contains t.label = true) : a.next project rules t = a := by
  rw [next, visit, if_pos h]

/-- All that a visit can do to a target that has not failed before. -/
theorem next_cases (project : Project) (rules : RuleTable)
    (h : a.failures.contains t.label = false) :
    (∃ cause, a.blocker? t.dependencies = some cause ∧
      a.next project rules t = a.skip t.label cause) ∨
    (∃ e, a.blocker? t.dependencies = none ∧ (a.attempt project rules t).1 = .error e ∧
      e.target = t.label ∧ a.next project rules t = a.fail e) ∨
    (∃ x edges, a.blocker? t.dependencies = none ∧
      (a.attempt project rules t).1 = .ok (x, edges) ∧
      a.next project rules t = a.record t.label x edges) := by
  simp only [next, visit, h, Bool.false_eq_true, if_false]
  cases hb : a.blocker? t.dependencies with
  | some cause => exact .inl ⟨cause, rfl, rfl⟩
  | none =>
    cases hattempt : (a.attempt project rules t).1 with
    | error e =>
      exact .inr (.inl ⟨e, rfl, rfl, attempt_eq_error hattempt, by simp [settle]⟩)
    | ok result =>
      exact .inr (.inr ⟨result.1, result.2, rfl, rfl, by simp [settle]⟩)

theorem entry_next_of_ne {label : Label} (h : label ≠ t.label) :
    (a.next project rules t).entry label = a.entry label := by
  by_cases hf : a.failures.contains t.label = true
  · rw [next_of_failed hf]
  · rcases next_cases project rules (Bool.eq_false_iff.mpr hf) with
      ⟨cause, -, hn⟩ | ⟨e, -, -, he, hn⟩ | ⟨x, edges, -, -, hn⟩
    · rw [hn, entry_skip, if_neg h]
    · rw [hn, entry_fail, if_neg (he ▸ h)]
    · rw [hn, entry_record, if_neg h]

theorem entry_next_self (h : a.entry t.label = .blank) :
    (a.next project rules t).entry t.label = (a.verdict project rules t).entry := by
  obtain ⟨-, hf, -⟩ := entry_eq_iff.mp h
  have hcontains : a.failures.contains t.label = false := by
    simp [SortedMap.contains, hf, Entry.blank]
  rcases next_cases project rules hcontains with
    ⟨cause, hb, hn⟩ | ⟨e, hb, he, htarget, hn⟩ | ⟨x, edges, hb, hx, hn⟩
  · rw [hn, entry_skip, if_pos rfl, h, verdict, hb]
    rfl
  · rw [hn, entry_fail, if_pos htarget.symm, h, verdict, hb, he]
    rfl
  · rw [hn, entry_record, if_pos rfl, h, verdict, hb, hx]
    rfl

theorem edges_next (a : Assembly) (t : Target) :
    (a.next project rules t).edges = a.edges ++ a.block project rules t := by
  by_cases hf : a.failures.contains t.label = true
  · rw [next_of_failed hf, block, if_pos hf, List.append_nil]
  · rcases next_cases project rules (Bool.eq_false_iff.mpr hf) with
      ⟨cause, hb, hn⟩ | ⟨e, hb, he, -, hn⟩ | ⟨x, edges, hb, hx, hn⟩
    · simp [hn, block, hb, skip]
    · simp [hn, block, hb, he, fail]
    · simp [hn, block, hf, hb, hx, record]

theorem clean_next (h : a.Clean) : (a.next project rules t).Clean := by
  by_cases hf : a.failures.contains t.label = true
  · rw [next_of_failed hf]
    exact h
  · rcases next_cases project rules (Bool.eq_false_iff.mpr hf) with
      ⟨cause, -, hn⟩ | ⟨e, -, -, -, hn⟩ | ⟨x, edges, -, hx, hn⟩
    · rw [hn]
      exact h
    · rw [hn]
      exact h
    · rw [hn]
      intro label y hy path hpath
      simp only [record, SortedMap.get?_insert] at hy
      split at hy
      · obtain rfl := Option.some.inj hy
        obtain ⟨_, _, _, _, _, _, _, hall, _, _, houtputs⟩ := attempt_eq_ok hx
        rw [houtputs, List.mem_flatMap] at hpath
        obtain ⟨edge, hedge, hpath⟩ := hpath
        exact RuleTable.outputs_of_checkEdge (hall edge hedge) path hpath
      · exact h label y hy path hpath

end Assembly

end BuildGraph
