import BuildGraph.Target

/-!
# Targets stated outright

A target whose dependencies, edges and exports are given as they are, for building a graph without a
verb.
-/

namespace BuildGraph

/-- A target with given products. -/
structure Stated where
  label : Label
  dependencies : List Label := []
  /-- The environment that has to exist; without one the target needs no environment. -/
  environment : Option String := none
  /-- The keys that the environment has to bind. -/
  requires : List String := []
  exports : Delta := .empty
  edges : List Edge := []
  /-- Whether the environment is not kept, so that the target never yields its products. -/
  forgets : Bool := false
deriving DecidableEq

namespace Stated

/-- Lower for an environment: the first required key that it lacks is reported. -/
def lower (stated : Stated) (environment : Environment) : Except TargetFault Products :=
  match stated.requires.find? fun key => !environment.contains key with
  | some key => .error (.missingToolBinding key)
  | none => .ok { exports := stated.exports, edges := stated.edges }

/-- Find the environment. -/
def lookup (stated : Stated) (project : Project) : Except TargetFault Environment :=
  match stated.environment with
  | none => .ok .empty
  | some name => findEnvironment project name

/-- The target. -/
def target (stated : Stated) : Target :=
  { label := stated.label
    verb := "stated"
    isLeaf := true
    dependencies := stated.dependencies
    retention := if stated.forgets then .forget else .keep
    lookup := stated.lookup
    lower := stated.lower }

end Stated

end BuildGraph
