import BuildGraph.Artifact
import BuildGraph.Edge
import BuildGraph.Template

/-!
# Rules

A rule is a named command template. A rule table holds rules whose templates can be read, at most
one of each name, and checks edges: the rule exists, no text of the edge holds a line break, and
every variable of the templates has a value.
-/

namespace BuildGraph

/-- A command, and the line shown while it runs. -/
structure Rule where
  name : String
  command : String
  description : String
deriving DecidableEq, Repr

/-- What is wrong with a rule or with an edge that uses it. -/
inductive RuleError where
  | duplicateRule (name : String)
  | unknownRule (name : String)
  | unboundVariable (rule name : String)
  | lineBreak (rule field : String)
  | template (rule : String) (error : TemplateError)
deriving DecidableEq, Repr

/-- The wording of each error. -/
def RuleError.message : RuleError → String
  | .duplicateRule name => "rule '" ++ name ++ "' is already registered"
  | .unknownRule name => "unknown rule '" ++ name ++ "'"
  | .unboundVariable rule name =>
    "rule '" ++ rule ++ "' references '$" ++ name ++ "' but the edge does not bind it"
  | .lineBreak rule field => "rule '" ++ rule ++ "': edge " ++ field ++ " contains a line break"
  | .template rule error =>
    "rule '" ++ rule ++ "' has an invalid template: " ++ error.message

/-- The variables that an edge does not bind itself: its inputs and its outputs. -/
def reservedVariables : List String := ["in", "out"]

namespace Rule

/-- Read one template of the rule. -/
def read (rule : Rule) (text : String) : Except RuleError (List Segment) :=
  (Template.parse text).mapError (RuleError.template rule.name)

/-- The variables of both templates other than the reserved ones, ascending. The command is read
before the description. -/
def requiredVariables (rule : Rule) : Except RuleError (List String) := do
  let command ← rule.read rule.command
  let description ← rule.read rule.description
  return (Template.variableNames (command ++ description)).keys.filter
    fun name => !reservedVariables.contains name

end Rule

/-- A rule whose templates can be read, with the variables that they need. -/
structure CheckedRule where
  rule : Rule
  required : List String
  required_eq : rule.requiredVariables = .ok required

/-- Rules by name. -/
structure RuleTable where
  rules : SortedMap String CheckedRule

namespace RuleTable

/-- The table without rules. -/
def empty : RuleTable := ⟨.empty⟩

/-- The rule of that name. -/
def get? (table : RuleTable) (name : String) : Option Rule :=
  (table.rules.get? name).map CheckedRule.rule

/-- The rules, by ascending name. -/
def toList (table : RuleTable) : List Rule := table.rules.values.map CheckedRule.rule

/-- The number of rules. -/
def size (table : RuleTable) : Nat := table.rules.size

/-- Whether there is no rule. -/
def isEmpty (table : RuleTable) : Bool := table.rules.isEmpty

/-- Add a rule. A name that is taken is reported before a template that cannot be read. -/
def register (table : RuleTable) (rule : Rule) : Except RuleError RuleTable :=
  if table.rules.contains rule.name then .error (.duplicateRule rule.name)
  else
    match h : rule.requiredVariables with
    | .error e => .error e
    | .ok required => .ok ⟨table.rules.insert rule.name ⟨rule, required, h⟩⟩

/-- Add rules one after another, up to the first error. -/
def registerAll (table : RuleTable) : List Rule → Except RuleError RuleTable
  | [] => .ok table
  | rule :: rest => do (← table.register rule).registerAll rest

/-- The part of an edge that holds a line break: of the inputs, the implicit inputs, the outputs and
the variables in ascending order, the first. -/
def lineBreakField? (edge : Edge) : Option String :=
  if edge.inputs.any hasLineBreak then some "inputs"
  else if edge.implicit.any hasLineBreak then some "implicit"
  else if edge.outputs.any hasLineBreak then some "outputs"
  else
    (edge.assignments.entries.find? fun (key, value) => hasLineBreak key || hasLineBreak value).map
      fun (key, _) => "variable '" ++ key ++ "'"

/-- Check that a build file can hold the edge and that its command can be run. -/
def checkEdge (table : RuleTable) (edge : Edge) : Except RuleError Unit :=
  match table.rules.get? edge.rule with
  | none => .error (.unknownRule edge.rule)
  | some checked =>
    match lineBreakField? edge with
    | some field => .error (.lineBreak edge.rule field)
    | none =>
      match checked.required.find? fun name => !edge.assignments.contains name with
      | some name => .error (.unboundVariable edge.rule name)
      | none => .ok ()

end RuleTable

end BuildGraph
