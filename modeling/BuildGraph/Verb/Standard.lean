import BuildGraph.Verb.Bundle
import BuildGraph.Verb.Objcopy

/-!
# Built-in verbs and rules

The verbs that a project may use without further ado, the rules that their edges need, and
the registries with the `bundle` verb plugged in.
-/

namespace BuildGraph

/-- The built-in verbs. -/
def VerbRegistry.standard : VerbRegistry := VerbRegistry.empty.add Objcopy.word Objcopy.declare

/-- The built-in verbs and `bundle`. -/
def VerbRegistry.withBundle : VerbRegistry := VerbRegistry.standard.add Bundle.word Bundle.declare

/-- The rules of the built-in verbs. -/
def RuleTable.standard : Except RuleError RuleTable := RuleTable.empty.registerAll [Objcopy.rule]

end BuildGraph
