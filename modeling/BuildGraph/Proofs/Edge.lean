import BuildGraph.Assembly

/-!
# Edges that wait

Waiting for further files adds them to the implicit inputs of an edge, each once and only if it is
not an input, and changes nothing else (`Edge.waitFor_firstOccurrences`). A rule table looks at the
files that an edge waits for in one respect only: whether one of them holds a line break.
-/

namespace BuildGraph

namespace Edge

variable (edge : Edge) (paths : List String)

/-- The files waited for are those given that are no inputs, after those already there. -/
theorem waitFor_eq : edge.waitFor paths =
    { edge with
      implicit := extendUnique edge.implicit (paths.filter fun path => path ∉ edge.inputs) } := by
  induction paths generalizing edge with
  | nil => rfl
  | cons path paths ih =>
    rw [waitFor]
    by_cases hin : path ∈ edge.inputs
    · rw [if_pos (by simp [hin]), ih, List.filter_cons_of_neg (by simp [hin])]
    · rw [List.filter_cons_of_pos (by simp [hin]), extendUnique]
      by_cases him : path ∈ edge.implicit
      · rw [if_pos (by simp [him]), if_pos (by simp [him]), ih]
      · rw [if_neg (by simp [hin, him]), if_neg (by simp [him]), ih]

theorem waitFor_rule : (edge.waitFor paths).rule = edge.rule := by rw [waitFor_eq]

theorem waitFor_inputs : (edge.waitFor paths).inputs = edge.inputs := by rw [waitFor_eq]

theorem waitFor_outputs : (edge.waitFor paths).outputs = edge.outputs := by rw [waitFor_eq]

theorem waitFor_assignments : (edge.waitFor paths).assignments = edge.assignments := by
  rw [waitFor_eq]

theorem waitFor_implicit : (edge.waitFor paths).implicit =
    extendUnique edge.implicit (paths.filter fun path => path ∉ edge.inputs) := by
  rw [waitFor_eq]

/-- The edge with further files to wait for: in order, each once, and none that the edge names
already. -/
def awaiting (edge : Edge) (paths : List String) : Edge :=
  { edge with
    implicit := edge.implicit ++ firstOccurrences
      (paths.filter fun path => path ∉ edge.inputs ∧ path ∉ edge.implicit) }

/-- Whether repetitions are left out before or after, the same files are waited for. -/
theorem waitFor_firstOccurrences : edge.waitFor (firstOccurrences paths) = edge.awaiting paths := by
  rw [waitFor_eq, firstOccurrences, filter_extendUnique, List.filter_nil, extendUnique_extendUnique,
    extendUnique, extendUnique_eq, List.filter_filter, awaiting]
  simp only [← Bool.decide_and, and_comm]

theorem mem_waitFor_implicit {edge : Edge} {paths : List String} {path : String} :
    path ∈ (edge.waitFor paths).implicit ↔
      path ∈ edge.implicit ∨ path ∈ paths ∧ path ∉ edge.inputs := by
  simp [waitFor_implicit, mem_extendUnique]

end Edge

/-! ## Checks -/

namespace RuleTable

/-- Which part of a waiting edge holds a line break depends, as to the files waited for, only on
whether one of them does. -/
theorem lineBreakField?_waitFor_congr (edge : Edge) {paths paths' : List String}
    (h : paths.any hasLineBreak = paths'.any hasLineBreak) :
    lineBreakField? (edge.waitFor paths) = lineBreakField? (edge.waitFor paths') := by
  simp only [lineBreakField?, Edge.waitFor_inputs, Edge.waitFor_outputs, Edge.waitFor_assignments]
  by_cases hin : edge.inputs.any hasLineBreak
  · rw [if_pos hin, if_pos hin]
  · -- a file with a line break cannot be an input here, so it is waited for
    have hany : ∀ paths : List String, (edge.waitFor paths).implicit.any hasLineBreak =
        (edge.implicit.any hasLineBreak || paths.any hasLineBreak) := by
      intro paths
      rw [Bool.eq_iff_iff, Bool.or_eq_true]
      simp only [List.any_eq_true, Edge.mem_waitFor_implicit]
      constructor
      · rintro ⟨path, hpath | ⟨hpath, -⟩, hbreak⟩
        · exact .inl ⟨path, hpath, hbreak⟩
        · exact .inr ⟨path, hpath, hbreak⟩
      · rintro (⟨path, hpath, hbreak⟩ | ⟨path, hpath, hbreak⟩)
        · exact ⟨path, .inl hpath, hbreak⟩
        · have hnot : path ∉ edge.inputs := fun hmem =>
            hin (List.any_eq_true.mpr ⟨path, hmem, hbreak⟩)
          exact ⟨path, .inr ⟨hpath, hnot⟩, hbreak⟩
    rw [hany paths, hany paths', h]

theorem checkEdge_waitFor_congr (rules : RuleTable) (edge : Edge) {paths paths' : List String}
    (h : paths.any hasLineBreak = paths'.any hasLineBreak) :
    rules.checkEdge (edge.waitFor paths) = rules.checkEdge (edge.waitFor paths') := by
  simp only [checkEdge, Edge.waitFor_rule, Edge.waitFor_assignments,
    lineBreakField?_waitFor_congr edge h]

/-- No part of an edge is named if none of its texts holds a line break. -/
theorem lineBreakField?_eq_none {edge : Edge} : lineBreakField? edge = none ↔
    (∀ path ∈ edge.inputs, hasLineBreak path = false) ∧
    (∀ path ∈ edge.implicit, hasLineBreak path = false) ∧
    (∀ path ∈ edge.outputs, hasLineBreak path = false) ∧
    ∀ entry ∈ edge.assignments.entries,
      hasLineBreak entry.1 = false ∧ hasLineBreak entry.2 = false := by
  have hany : ∀ paths : List String,
      ¬ paths.any hasLineBreak = true ↔ ∀ path ∈ paths, hasLineBreak path = false := by
    simp [List.any_eq_true]
  rw [lineBreakField?, ← hany, ← hany, ← hany]
  by_cases hinputs : edge.inputs.any hasLineBreak
  · simp [hinputs]
  by_cases himplicit : edge.implicit.any hasLineBreak
  · simp [hinputs, himplicit]
  by_cases houtputs : edge.outputs.any hasLineBreak
  · simp [hinputs, himplicit, houtputs]
  rw [if_neg hinputs, if_neg himplicit, if_neg houtputs, Option.map_eq_none_iff, List.find?_eq_none]
  simp [hinputs, himplicit, houtputs]

theorem lineBreakField?_of_checkEdge {rules : RuleTable} {edge : Edge}
    (h : rules.checkEdge edge = .ok ()) : lineBreakField? edge = none := by
  rw [checkEdge] at h
  split at h
  next => cases h
  next =>
    split at h
    next => cases h
    next hfield => exact hfield

/-- Another edge of the same rule and values passes the check too, unless it brings in a line
break. -/
theorem checkEdge_of_lineBreakField? {rules : RuleTable} {edge other : Edge}
    (h : rules.checkEdge edge = .ok ()) (hrule : edge.rule = other.rule)
    (hassignments : edge.assignments = other.assignments) (hother : lineBreakField? other = none) :
    rules.checkEdge other = .ok () := by
  rw [checkEdge, lineBreakField?_of_checkEdge h, hrule, hassignments] at h
  rw [checkEdge, hother]
  exact h

/-- No output of an edge that passes the check holds a line break. -/
theorem outputs_of_checkEdge {rules : RuleTable} {edge : Edge} (h : rules.checkEdge edge = .ok ()) :
    ∀ path ∈ edge.outputs, hasLineBreak path = false :=
  (lineBreakField?_eq_none.mp (lineBreakField?_of_checkEdge h)).2.2.1

end RuleTable

namespace Assembly

variable {rules : RuleTable} {paths paths' : List String} {edges done : List Edge}

/-- Finished edges wait for the given files and pass the check. -/
theorem finishEdges_eq_ok (h : finishEdges rules paths edges = .ok done) :
    done = edges.map (·.waitFor paths) ∧ ∀ edge ∈ done, rules.checkEdge edge = .ok () := by
  induction edges generalizing done with
  | nil =>
    cases h
    simp
  | cons edge edges ih =>
    rw [finishEdges] at h
    cases hcheck : rules.checkEdge (edge.waitFor paths) with
    | error e => simp [hcheck, bind, Except.bind] at h
    | ok u =>
      cases hrest : finishEdges rules paths edges with
      | error e => simp [hcheck, hrest, bind, Except.bind] at h
      | ok rest =>
        obtain ⟨hmap, hall⟩ := ih hrest
        simp only [hcheck, hrest, bind, Except.bind, pure, Except.pure, Except.ok.injEq] at h
        subst h
        refine ⟨by rw [hmap, List.map_cons], ?_⟩
        intro e he
        rcases List.mem_cons.mp he with rfl | he
        · exact hcheck
        · exact hall e he

/-- Whether edges can be finished, and with which error if not, depends on the files waited for
only through their line breaks. -/
theorem finishEdges_congr (rules : RuleTable) (edges : List Edge)
    (h : paths.any hasLineBreak = paths'.any hasLineBreak) :
    (finishEdges rules paths edges).map (·.flatMap Edge.outputs) =
      (finishEdges rules paths' edges).map (·.flatMap Edge.outputs) := by
  induction edges with
  | nil => rfl
  | cons edge edges ih =>
    rw [finishEdges, finishEdges]
    simp only [rules.checkEdge_waitFor_congr edge h]
    cases rules.checkEdge (edge.waitFor paths') with
    | error e => rfl
    | ok u =>
      cases h₁ : finishEdges rules paths edges <;> cases h₂ : finishEdges rules paths' edges <;>
        simp_all [bind, Except.bind, pure, Except.pure, Except.map, Edge.waitFor_outputs]

end Assembly

end BuildGraph
