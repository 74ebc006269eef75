import BuildGraph.Proofs.Edge
import BuildGraph.Proofs.Loading

/-!
# Rule tables and their checks

A rule table is filled rule by rule, and what it holds in the end is the rules that were registered,
each under its name (`RuleTable.Holds`). It keeps with each rule the variables that the rule needs;
a check never reads a template again, and finds what reading them would show.

An edge may have several faults. They have an order (`EdgeFault.NotAfter`), and the one that a check
reports is the first of those that the edge has; an edge without faults passes
(`RuleTable.represents_of_registerAll`).
-/

namespace BuildGraph

/-! ## Ascending entries -/

theorem SortedMap.mem_keys_ofList {κ β : Type} [Ord κ] [Std.TransOrd κ] [Std.LawfulEqOrd κ]
    {l : List (κ × β)} {k : κ} : k ∈ (ofList l).keys ↔ k ∈ l.map Prod.fst := by
  have hfold : ∀ m : SortedMap κ β, k ∈ (l.foldl (fun m e => m.insert e.1 e.2) m).keys ↔
      k ∈ m.keys ∨ k ∈ l.map Prod.fst := by
    induction l with
    | nil => simp
    | cons e l ih =>
      intro m
      rw [List.foldl_cons, ih, mem_keys_insert, List.map_cons, List.mem_cons]
      tauto
  rw [ofList, hfold]
  simp [keys, empty]

theorem SortedMap.keys_pairwise_lt {β : Type} (m : SortedMap String β) :
    m.keys.Pairwise (· < ·) :=
  List.Pairwise.map _ (fun _ _ h => compareOfLessAndEq_eq_lt.mp h) m.ascending

/-- What is found first in a list with ascending names has the least name. -/
theorem le_of_find?_eq_some {α : Type} {name : α → String} {l : List α} {p : α → Bool} {x : α}
    (hasc : (l.map name).Pairwise (· < ·)) (h : l.find? p = some x) :
    ∀ y ∈ l, p y = true → name x ≤ name y := by
  obtain ⟨-, before, after, rfl, hbefore⟩ := List.find?_eq_some_iff_append.mp h
  intro y hy hpy
  rw [List.map_append, List.map_cons] at hasc
  rcases List.mem_append.mp hy with hy | hy
  · exact absurd hpy (by simpa using hbefore y hy)
  · rcases List.mem_cons.mp hy with rfl | hy
    · exact String.le_refl _
    · have hlt := List.rel_of_pairwise_cons (List.pairwise_append.mp hasc).2.1
        (List.mem_map_of_mem hy)
      exact Std.le_of_lt hlt

/-! ## Variables of a rule -/

namespace Rule

variable {rule : Rule} {name : String} {required : List String} {e : RuleError}

/-- The templates of a rule, the command first. -/
def templates (rule : Rule) : List String := [rule.command, rule.description]

/-- A template of the rule has the variable. -/
def Uses (rule : Rule) (name : String) : Prop :=
  ∃ text ∈ rule.templates, ∃ segments,
    Template.parse text = .ok segments ∧ .variable name ∈ segments

/-- Every template of the rule can be read. -/
def Readable (rule : Rule) : Prop :=
  ∀ text ∈ rule.templates, ∃ segments, Template.parse text = .ok segments

theorem mem_variableNames {segments : List Segment} :
    name ∈ (Template.variableNames segments).keys ↔ .variable name ∈ segments := by
  rw [Template.variableNames, SortedMap.mem_keys_ofList, List.mem_map]
  constructor
  · rintro ⟨⟨_, _⟩, hmem, rfl⟩
    obtain ⟨segment, hsegment, heq⟩ := List.mem_filterMap.mp hmem
    cases segment <;> cases heq
    exact hsegment
  · intro h
    exact ⟨(name, ()), List.mem_filterMap.mpr ⟨_, h, rfl⟩, rfl⟩

theorem requiredVariables_eq_ok (h : rule.requiredVariables = .ok required) :
    ∃ command description, Template.parse rule.command = .ok command ∧
      Template.parse rule.description = .ok description ∧
      required = (Template.variableNames (command ++ description)).keys.filter
        fun name => !reservedVariables.contains name := by
  obtain ⟨command, hcommand, h⟩ := bind_eq_ok h
  obtain ⟨description, hdescription, h⟩ := bind_eq_ok h
  cases h
  exact ⟨command, description, mapError_eq_ok hcommand, mapError_eq_ok hdescription, rfl⟩

theorem readable_of_requiredVariables (h : rule.requiredVariables = .ok required) :
    rule.Readable := by
  obtain ⟨command, description, hcommand, hdescription, -⟩ := requiredVariables_eq_ok h
  intro text htext
  rcases List.mem_pair.mp htext with rfl | rfl
  · exact ⟨command, hcommand⟩
  · exact ⟨description, hdescription⟩

/-- The variables that a rule needs are those of its templates that are not reserved. -/
theorem mem_requiredVariables (h : rule.requiredVariables = .ok required) :
    name ∈ required ↔ rule.Uses name ∧ name ∉ reservedVariables := by
  obtain ⟨command, description, hcommand, hdescription, rfl⟩ := requiredVariables_eq_ok h
  have huses : .variable name ∈ command ++ description ↔ rule.Uses name := by
    simp [Uses, templates, hcommand, hdescription]
  rw [List.mem_filter, mem_variableNames, huses]
  simp

theorem requiredVariables_ascending (h : rule.requiredVariables = .ok required) :
    required.Pairwise (· < ·) := by
  obtain ⟨command, description, -, -, rfl⟩ := requiredVariables_eq_ok h
  exact (SortedMap.keys_pairwise_lt _).filter _

end Rule

/-! ## Registering -/

/-- Why a table with the given rules does not take in another one. -/
inductive RuleTable.Refuses (rules : List Rule) (rule : Rule) : RuleError → Prop
  | duplicate {other : Rule} : other ∈ rules → other.name = rule.name →
    Refuses rules rule (.duplicateRule rule.name)
  | command {e : TemplateError} : (∀ other ∈ rules, other.name ≠ rule.name) →
    Template.parse rule.command = .error e → Refuses rules rule (.template rule.name e)
  | description {segments : List Segment} {e : TemplateError} :
    (∀ other ∈ rules, other.name ≠ rule.name) → Template.parse rule.command = .ok segments →
    Template.parse rule.description = .error e → Refuses rules rule (.template rule.name e)

namespace RuleTable

variable {table next : RuleTable} {rules : List Rule} {rule : Rule} {name : String} {e : RuleError}

/-- The table has the given rules, each under its name, and no others. -/
def Holds (table : RuleTable) (rules : List Rule) : Prop :=
  ∀ name rule, table.get? name = some rule ↔ rule ∈ rules ∧ rule.name = name

theorem holds_empty : empty.Holds [] := by
  intro name rule
  simp [get?, empty]

theorem register_eq_ok (h : table.register rule = .ok next) :
    table.rules.contains rule.name = false ∧ ∃ checked : CheckedRule, checked.rule = rule ∧
      next.rules = table.rules.insert rule.name checked := by
  rw [register] at h
  split at h
  next => cases h
  next hnew =>
    split at h
    next => cases h
    next required hrequired =>
      cases h
      exact ⟨by simpa using hnew, ⟨rule, required, hrequired⟩, rfl, rfl⟩

theorem Holds.contains_eq_false_iff (h : table.Holds rules) :
    table.rules.contains name = false ↔ ∀ other ∈ rules, other.name ≠ name := by
  have hget : table.rules.get? name = none ↔ table.get? name = none := by simp [get?]
  rw [SortedMap.contains_eq_false, hget, Option.eq_none_iff_forall_not_mem]
  simp only [Option.mem_def, h name, not_and]

/-- Registering a rule adds it and keeps all others. -/
theorem Holds.register (h : table.Holds rules) (hregister : table.register rule = .ok next) :
    next.Holds (rules ++ [rule]) := by
  obtain ⟨hnew, checked, rfl, hnext⟩ := register_eq_ok hregister
  have hfresh := h.contains_eq_false_iff.mp hnew
  intro name other
  rw [get?, hnext, SortedMap.get?_insert, List.mem_append, List.mem_singleton]
  by_cases hname : name = checked.rule.name
  · rw [if_pos hname, hname, Option.map_some, Option.some.injEq]
    constructor
    · rintro rfl
      exact ⟨.inr rfl, rfl⟩
    · rintro ⟨hother | rfl, hsame⟩
      · exact absurd hsame (hfresh other hother)
      · rfl
  · rw [if_neg hname, ← get?, h name]
    constructor
    · rintro ⟨hother, hsame⟩
      exact ⟨.inl hother, hsame⟩
    · rintro ⟨hother | rfl, hsame⟩
      · exact ⟨hother, hsame⟩
      · exact absurd hsame.symm hname

theorem Holds.registerAll {more : List Rule} (h : table.Holds rules)
    (hregister : table.registerAll more = .ok next) : next.Holds (rules ++ more) := by
  induction more generalizing table rules with
  | nil =>
    cases hregister
    rwa [List.append_nil]
  | cons rule more ih =>
    obtain ⟨between, hbetween, hmore⟩ := bind_eq_ok hregister
    have hall := ih (h.register hbetween) hmore
    rwa [List.append_assoc] at hall

/-- The rule of a name is kept with the variables that it needs. -/
theorem Holds.exists_checked (h : table.Holds rules) (hrule : rule ∈ rules) :
    ∃ checked, table.rules.get? rule.name = some checked ∧ checked.rule = rule :=
  Option.map_eq_some_iff.mp ((h rule.name rule).mpr ⟨hrule, rfl⟩)

theorem Holds.readable (h : table.Holds rules) (hrule : rule ∈ rules) : rule.Readable := by
  obtain ⟨checked, -, rfl⟩ := h.exists_checked hrule
  exact Rule.readable_of_requiredVariables checked.required_eq

theorem requiredVariables_eq_error_iff : rule.requiredVariables = .error e ↔
    (∃ cause, Template.parse rule.command = .error cause ∧ e = .template rule.name cause) ∨
    ∃ segments cause, Template.parse rule.command = .ok segments ∧
      Template.parse rule.description = .error cause ∧ e = .template rule.name cause := by
  rw [Rule.requiredVariables, Rule.read, Rule.read]
  cases Template.parse rule.command <;> cases Template.parse rule.description <;>
    simp [Except.mapError, bind, Except.bind, pure, Except.pure, eq_comm]

/-- A rule is refused for its name first, then for its command and then for its description. -/
theorem Holds.register_eq_error_iff (h : table.Holds rules) :
    table.register rule = .error e ↔ Refuses rules rule e := by
  rw [RuleTable.register]
  split
  next htaken =>
    have hnot : ¬ ∀ other ∈ rules, other.name ≠ rule.name := by
      rw [← h.contains_eq_false_iff, htaken]
      decide
    constructor
    · intro herror
      cases herror
      obtain ⟨other, hother, hname⟩ : ∃ other ∈ rules, other.name = rule.name := by
        simpa using hnot
      exact .duplicate hother hname
    · intro hrefuses
      cases hrefuses with
      | duplicate => rfl
      | command hfresh => exact absurd hfresh hnot
      | description hfresh => exact absurd hfresh hnot
  next hnew =>
    have hfresh := h.contains_eq_false_iff.mp (by simpa using hnew)
    have hrequired : rule.requiredVariables = .error e ↔ Refuses rules rule e := by
      rw [requiredVariables_eq_error_iff]
      constructor
      · rintro (⟨cause, hcommand, rfl⟩ | ⟨segments, cause, hcommand, hdescription, rfl⟩)
        · exact .command hfresh hcommand
        · exact .description hfresh hcommand hdescription
      · intro hrefuses
        cases hrefuses with
        | duplicate hother hname => exact absurd hname (hfresh _ hother)
        | command _ hcommand => exact .inl ⟨_, hcommand, rfl⟩
        | description _ hcommand hdescription => exact .inr ⟨_, _, hcommand, hdescription, rfl⟩
    split
    next cause hcause => simp [← hrequired, hcause]
    next required hok => simp [← hrequired, hok]

end RuleTable

/-! ## Faults of edges -/

/-- A text without a line feed and without a carriage return. -/
def OneLine (text : String) : Prop := '\n' ∉ text.toList ∧ '\r' ∉ text.toList

theorem not_oneLine_iff {text : String} : ¬ OneLine text ↔ hasLineBreak text = true := by
  simp only [OneLine, hasLineBreak, isLineBreak, List.any_eq_true, Bool.or_eq_true, beq_iff_eq,
    and_or_left, exists_or, exists_eq_right]
  tauto

/-- What can be wrong with an edge. -/
inductive EdgeFault where
  | unknownRule
  | inputs
  | implicit
  | outputs
  | assignment (key : String)
  | unbound (name : String)

namespace EdgeFault

variable {rules : List Rule} {edge : Edge} {fault other : EdgeFault}

/-- The error that a fault is reported as. -/
def error (edge : Edge) : EdgeFault → RuleError
  | .unknownRule => .unknownRule edge.rule
  | .inputs => .lineBreak edge.rule "inputs"
  | .implicit => .lineBreak edge.rule "implicit"
  | .outputs => .lineBreak edge.rule "outputs"
  | .assignment key => .lineBreak edge.rule ("variable '" ++ key ++ "'")
  | .unbound name => .unboundVariable edge.rule name

/-- An edge has a fault: no rule has the name, a text holds a line break, or a variable of the rule
has no value. -/
def Occurs (rules : List Rule) (edge : Edge) : EdgeFault → Prop
  | .unknownRule => ∀ rule ∈ rules, rule.name ≠ edge.rule
  | .inputs => ∃ path ∈ edge.inputs, ¬ OneLine path
  | .implicit => ∃ path ∈ edge.implicit, ¬ OneLine path
  | .outputs => ∃ path ∈ edge.outputs, ¬ OneLine path
  | .assignment key => ∃ value, edge.assignments.get? key = some value ∧
    ¬ (OneLine key ∧ OneLine value)
  | .unbound name => (∃ rule ∈ rules, rule.name = edge.rule ∧ rule.Uses name) ∧
    name ∉ ["in", "out"] ∧ edge.assignments.get? name = none

/-- The place of a kind of fault in the order of reports. -/
def rank : EdgeFault → Nat
  | .unknownRule => 0
  | .inputs => 1
  | .implicit => 2
  | .outputs => 3
  | .assignment _ => 4
  | .unbound _ => 5

/-- Faults are reported kind by kind, and those of variables by ascending name. -/
def NotAfter : EdgeFault → EdgeFault → Prop
  | .assignment key, .assignment other => key ≤ other
  | .unbound name, .unbound other => name ≤ other
  | fault, other => fault.rank ≤ other.rank

theorem NotAfter.antisymm (h : fault.NotAfter other) (h' : other.NotAfter fault) :
    fault = other := by
  cases fault <;> cases other <;> simp_all [NotAfter, rank]
  all_goals exact String.le_antisymm h h'

/-- Of the faults that an edge has, the first in the order of reports. -/
structure First (rules : List Rule) (edge : Edge) (fault : EdgeFault) : Prop where
  occurs : fault.Occurs rules edge
  notAfter : ∀ other : EdgeFault, other.Occurs rules edge → fault.NotAfter other

theorem First.unique (h : First rules edge fault) (h' : First rules edge other) : fault = other :=
  (h.notAfter other h'.occurs).antisymm (h'.notAfter fault h.occurs)

/-! ## Checking kind by kind -/

/-- The edge has no fault of the first kinds, as many as are given. -/
def Cleared (rules : List Rule) (edge : Edge) (kinds : Nat) : Prop :=
  ∀ fault : EdgeFault, fault.Occurs rules edge → kinds ≤ fault.rank

theorem cleared_zero : Cleared rules edge 0 := fun _ _ => Nat.zero_le _

theorem Cleared.succ {kinds : Nat} (h : Cleared rules edge kinds)
    (hnext : ∀ fault : EdgeFault, fault.rank = kinds → ¬ fault.Occurs rules edge) :
    Cleared rules edge (kinds + 1) :=
  fun fault hfault => Nat.lt_of_le_of_ne (h fault hfault) fun heq => hnext fault heq.symm hfault

/-- There are six kinds. -/
theorem Cleared.not_occurs (h : Cleared rules edge 6) : ¬ fault.Occurs rules edge := by
  intro hfault
  have hrank := h fault hfault
  cases fault <;> simp [rank] at hrank

/-- The part of an edge that is found to hold a line break is the first such part. -/
theorem Cleared.lineBreakField? (h : Cleared rules edge 1) :
    (RuleTable.lineBreakField? edge = none ∧ Cleared rules edge 5) ∨
    ∃ fault field, RuleTable.lineBreakField? edge = some field ∧ First rules edge fault ∧
      fault.error edge = .lineBreak edge.rule field := by
  have hany : ∀ {paths : List String},
      paths.any hasLineBreak = true ↔ ∃ path ∈ paths, ¬ OneLine path := by
    simp only [List.any_eq_true, not_oneLine_iff, implies_true]
  have hentry : ∀ entry : String × String, (hasLineBreak entry.1 || hasLineBreak entry.2) = true ↔
      ¬ (OneLine entry.1 ∧ OneLine entry.2) := by
    simp only [Bool.or_eq_true, ← not_oneLine_iff, not_and_or, implies_true]
  by_cases hinputs : edge.inputs.any hasLineBreak = true
  · exact .inr ⟨.inputs, "inputs", if_pos hinputs, ⟨hany.mp hinputs, h⟩, rfl⟩
  replace h := h.succ (by rintro (_ | _ | _ | _ | _ | _) ⟨⟩; exact mt hany.mpr hinputs)
  by_cases himplicit : edge.implicit.any hasLineBreak = true
  · refine .inr ⟨.implicit, "implicit", ?_, ⟨hany.mp himplicit, h⟩, rfl⟩
    rw [RuleTable.lineBreakField?, if_neg hinputs, if_pos himplicit]
  replace h := h.succ (by rintro (_ | _ | _ | _ | _ | _) ⟨⟩; exact mt hany.mpr himplicit)
  by_cases houtputs : edge.outputs.any hasLineBreak = true
  · refine .inr ⟨.outputs, "outputs", ?_, ⟨hany.mp houtputs, h⟩, rfl⟩
    rw [RuleTable.lineBreakField?, if_neg hinputs, if_neg himplicit, if_pos houtputs]
  replace h := h.succ (by rintro (_ | _ | _ | _ | _ | _) ⟨⟩; exact mt hany.mpr houtputs)
  cases hpart : RuleTable.lineBreakField? edge with
  | none =>
    refine .inl ⟨rfl, h.succ ?_⟩
    rintro (_ | _ | _ | _ | key | _) ⟨⟩ ⟨value, hvalue, hbreak⟩
    obtain ⟨-, -, -, hentries⟩ := RuleTable.lineBreakField?_eq_none.mp hpart
    have hfound := (hentry (key, value)).mpr hbreak
    simp [hentries _ (SortedMap.get?_eq_some_iff.mp hvalue)] at hfound
  | some field =>
    rw [RuleTable.lineBreakField?, if_neg hinputs, if_neg himplicit, if_neg houtputs] at hpart
    obtain ⟨entry, hfind, rfl⟩ := Option.map_eq_some_iff.mp hpart
    have hmem := SortedMap.get?_eq_some_iff.mpr (List.mem_of_find?_eq_some hfind)
    have hfound := List.find?_some hfind
    have hbreak := (hentry entry).mp hfound
    refine .inr ⟨.assignment entry.1, _, rfl, ⟨⟨entry.2, hmem, hbreak⟩, ?_⟩, rfl⟩
    intro other hother
    cases other with
    | assignment key =>
      obtain ⟨value, hvalue, hbreak⟩ := hother
      exact le_of_find?_eq_some edge.assignments.keys_pairwise_lt hfind (key, value)
        (SortedMap.get?_eq_some_iff.mp hvalue) ((hentry (key, value)).mpr hbreak)
    | _ => exact h _ hother

/-- A check passes over the kinds of faults that an edge does not have, and reports the first that
it has. -/
theorem checkEdge_cases {table : RuleTable} (h : table.Holds rules) (edge : Edge) :
    (table.checkEdge edge = .ok () ∧ Cleared rules edge 6) ∨
    ∃ fault, table.checkEdge edge = .error (fault.error edge) ∧ First rules edge fault := by
  rw [RuleTable.checkEdge]
  cases hget : table.rules.get? edge.rule with
  | none =>
    have hunknown := h.contains_eq_false_iff.mp (SortedMap.contains_eq_false.mpr hget)
    exact .inr ⟨.unknownRule, rfl, hunknown, cleared_zero⟩
  | some checked =>
    have hheld : ∀ rule, rule ∈ rules ∧ rule.name = edge.rule ↔ checked.rule = rule := by
      intro rule
      rw [← h edge.rule rule, RuleTable.get?, hget, Option.map_some, Option.some.injEq]
    obtain ⟨hrule, hname⟩ := (hheld checked.rule).mpr rfl
    have hknown : Cleared rules edge 1 := cleared_zero.succ (by
      rintro (_ | _ | _ | _ | _ | _) ⟨⟩ hunknown
      exact hunknown _ hrule hname)
    rcases hknown.lineBreakField? with ⟨hnone, hclean⟩ | ⟨fault, field, hfield, hfirst, herror⟩
    · simp only [hnone]
      -- the variables that the table has kept are those of the templates
      have hneeds : ∀ name, (unbound name).Occurs rules edge ↔
          name ∈ checked.required ∧ edge.assignments.contains name = false := by
        intro name
        rw [Rule.mem_requiredVariables checked.required_eq, SortedMap.contains_eq_false, and_assoc]
        refine and_congr_left fun _ => ⟨?_, fun huses => ⟨_, hrule, hname, huses⟩⟩
        rintro ⟨rule, hmem, hsame, huses⟩
        rwa [(hheld rule).mp ⟨hmem, hsame⟩]
      cases hfind : checked.required.find? fun name => !edge.assignments.contains name with
      | none =>
        refine .inl ⟨rfl, hclean.succ ?_⟩
        rintro (_ | _ | _ | _ | _ | name) ⟨⟩ hunbound
        obtain ⟨hmem, hfree⟩ := (hneeds name).mp hunbound
        exact List.find?_eq_none.mp hfind name hmem (by simp [hfree])
      | some name =>
        have hfree := List.find?_some hfind
        have hoccurs := (hneeds name).mpr ⟨List.mem_of_find?_eq_some hfind, by simpa using hfree⟩
        refine .inr ⟨.unbound name, rfl, hoccurs, fun other hother => ?_⟩
        cases other with
        | unbound other =>
          obtain ⟨hmem, hfree⟩ := (hneeds other).mp hother
          have hasc := Rule.requiredVariables_ascending checked.required_eq
          rw [← List.map_id checked.required] at hasc
          exact le_of_find?_eq_some hasc hfind other hmem (by simp [hfree])
        | _ => exact hclean _ hother
    · exact .inr ⟨fault, by simp [hfield, herror], hfirst⟩

end EdgeFault

/-! ## Tables of registered rules -/

/-- An edge that a build file can hold and whose command can be run: its rule is among the given
ones, no text of it holds a line break, and whatever variable the rule has is bound. -/
structure Edge.Fits (rules : List Rule) (edge : Edge) : Prop where
  registered : ∃ rule ∈ rules, rule.name = edge.rule
  inputs : ∀ path ∈ edge.inputs, OneLine path
  implicit : ∀ path ∈ edge.implicit, OneLine path
  outputs : ∀ path ∈ edge.outputs, OneLine path
  assignments : ∀ key value, edge.assignments.get? key = some value → OneLine key ∧ OneLine value
  bound : ∀ rule ∈ rules, rule.name = edge.rule → ∀ name, rule.Uses name →
    name = "in" ∨ name = "out" ∨ ∃ value, edge.assignments.get? name = some value

theorem EdgeFault.fits_iff {rules : List Rule} {edge : Edge} :
    edge.Fits rules ↔ ∀ fault : EdgeFault, ¬ fault.Occurs rules edge := by
  have hclean : ∀ {paths : List String}, (∀ path ∈ paths, OneLine path) ↔
      ¬ ∃ path ∈ paths, ¬ OneLine path := by simp
  constructor
  · intro h fault hoccurs
    cases fault with
    | unknownRule =>
      obtain ⟨rule, hrule, hname⟩ := h.registered
      exact hoccurs rule hrule hname
    | inputs => exact hclean.mp h.inputs hoccurs
    | implicit => exact hclean.mp h.implicit hoccurs
    | outputs => exact hclean.mp h.outputs hoccurs
    | assignment key =>
      obtain ⟨value, hvalue, hbreak⟩ := hoccurs
      exact hbreak (h.assignments key value hvalue)
    | unbound name =>
      obtain ⟨⟨rule, hrule, hname, huses⟩, hreserved, hfree⟩ := hoccurs
      rcases h.bound rule hrule hname name huses with rfl | rfl | ⟨value, hvalue⟩
      · exact hreserved (by simp)
      · exact hreserved (by simp)
      · rw [hfree] at hvalue
        cases hvalue
  · intro h
    refine ⟨?_, hclean.mpr (h .inputs), hclean.mpr (h .implicit), hclean.mpr (h .outputs), ?_, ?_⟩
    · by_contra hnone
      exact h .unknownRule fun rule hrule hname => hnone ⟨rule, hrule, hname⟩
    · intro key value hvalue
      by_contra hbreak
      exact h (.assignment key) ⟨value, hvalue, hbreak⟩
    · intro rule hrule hname name huses
      by_contra hunbound
      simp only [not_or, not_exists] at hunbound
      obtain ⟨hin, hout, hfree⟩ := hunbound
      exact h (.unbound name) ⟨⟨rule, hrule, hname, huses⟩, by simp [hin, hout],
        Option.eq_none_iff_forall_ne_some.mpr hfree⟩

namespace RuleTable

/-- What a table of registered rules has and does. -/
structure Represents (table : RuleTable) (rules : List Rule) : Prop where
  holds : table.Holds rules
  readable : ∀ rule ∈ rules, rule.Readable
  checkEdge_ok : ∀ edge, table.checkEdge edge = .ok () ↔ edge.Fits rules
  /-- What is reported is the first of the faults that the edge has. -/
  checkEdge_error : ∀ edge e, table.checkEdge edge = .error e ↔
    ∃ fault, EdgeFault.First rules edge fault ∧ fault.error edge = e
  /-- A further rule is refused for the first reason that there is. -/
  register_error : ∀ rule e, table.register rule = .error e ↔ Refuses rules rule e
  /-- Nothing else keeps it out. -/
  register_ok : ∀ rule, (∀ e, ¬ Refuses rules rule e) →
    ∃ next, table.register rule = .ok next ∧ next.Holds (rules ++ [rule])

/-- However a table was filled: it has the rules that were registered, and its checks are about
their templates. -/
theorem represents_of_registerAll {table : RuleTable} {rules : List Rule}
    (h : empty.registerAll rules = .ok table) : table.Represents rules := by
  have hholds : table.Holds rules := holds_empty.registerAll h
  refine ⟨hholds, fun rule => hholds.readable, fun edge => ?_, fun edge e => ?_,
    fun rule e => hholds.register_eq_error_iff, fun rule hrule => ?_⟩
  · rw [EdgeFault.fits_iff]
    rcases EdgeFault.checkEdge_cases hholds edge with ⟨hok, hcleared⟩ | ⟨fault, herror, hfirst⟩
    · exact ⟨fun _ fault => hcleared.not_occurs, fun _ => hok⟩
    · rw [herror]
      exact ⟨fun hok => (by cases hok), fun hnone => absurd hfirst.occurs (hnone fault)⟩
  · rcases EdgeFault.checkEdge_cases hholds edge with ⟨hok, hcleared⟩ | ⟨fault, herror, hfirst⟩
    · rw [hok]
      constructor
      · intro herror
        cases herror
      · rintro ⟨fault, hfirst, -⟩
        exact absurd hfirst.occurs hcleared.not_occurs
    · rw [herror, Except.error.injEq]
      constructor
      · intro heq
        exact ⟨fault, hfirst, heq⟩
      · rintro ⟨other, hother, rfl⟩
        rw [hfirst.unique hother]
  · cases hnext : table.register rule with
    | error e => exact absurd (hholds.register_eq_error_iff.mp hnext) (hrule e)
    | ok next => exact ⟨next, rfl, hholds.register hnext⟩

end RuleTable

namespace Sample

/-- A rule with a variable of its own in each template. -/
def compiling : Rule :=
  { name := "cc", command := "$cc -c $in -o $out", description := "CC $\x7btarget.name\x7d" }

/-- A rule that needs one variable. -/
def linking : Rule := { name := "ld", command := "$cc $in $\n  -o $out", description := "LD $out" }

/-- A rule that only its description keeps out. -/
def dangling : Rule := { name := "ar", command := "ar rcs $out $in", description := "AR $" }

/-- An edge with line breaks in three places, and without one of the values that it needs. -/
def broken : Edge :=
  { rule := "cc", inputs := ["a.c"], implicit := ["b.h", "c\r.h"], outputs := ["a.o\n"]
    assignments := SortedMap.ofList [("cc", "gcc\n")] }

end Sample

theorem RuleTable.represents_of_registerAll_sample : ∃ table,
    RuleTable.empty.registerAll [Sample.compiling, Sample.linking] = .ok table ∧
    table.checkEdge Sample.broken = .error (.lineBreak "cc" "implicit") ∧
    table.checkEdge { Sample.broken with implicit := [], outputs := ["a.o"] } =
      .error (.lineBreak "cc" "variable 'cc'") ∧
    table.checkEdge { Sample.broken with implicit := [], outputs := [], assignments := .empty } =
      .error (.unboundVariable "cc" "cc") ∧
    table.register { Sample.dangling with name := "ld" } = .error (.duplicateRule "ld") ∧
    table.register Sample.dangling = .error (.template "ar" .dangling) ∧
    table.Represents [Sample.compiling, Sample.linking] := by
  have hruns : ((RuleTable.empty.registerAll [Sample.compiling, Sample.linking]).toOption.map
      fun table => (table.checkEdge Sample.broken,
        table.checkEdge { Sample.broken with implicit := [], outputs := ["a.o"] },
        table.checkEdge { Sample.broken with implicit := [], outputs := [], assignments := .empty },
        (table.register { Sample.dangling with name := "ld" }).map fun _ => (),
        (table.register Sample.dangling).map fun _ => ())) =
      some (.error (.lineBreak "cc" "implicit"), .error (.lineBreak "cc" "variable 'cc'"),
        .error (.unboundVariable "cc" "cc"), .error (.duplicateRule "ld"),
        .error (.template "ar" .dangling)) := by rfl
  obtain ⟨table, htable, hruns⟩ := Option.map_eq_some_iff.mp hruns
  replace htable := eq_ok_of_toOption htable
  simp only [Prod.mk.injEq, map_eq_error_iff] at hruns
  obtain ⟨hbroken, hvalue, hunbound, htaken, hdangling⟩ := hruns
  exact ⟨table, htable, hbroken, hvalue, hunbound, htaken, hdangling,
    represents_of_registerAll htable⟩

end BuildGraph
