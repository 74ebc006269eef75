import BuildGraph.Schedule
import BuildGraph.Target

/-!
# Assembly

Assembly lowers all targets of a project, producers before consumers. A target that fails is
recorded with its error, a target that depends on one that failed or was skipped is skipped, and all
others are lowered, so one run reports every error. Only a cycle of dependencies ends it.

A consumer inherits, dependency by dependency, what the dependency inherited followed by what it
exports. The list that this leaves in the implicit field says which further files the edges of the
consumer wait for.
-/

namespace BuildGraph

/-- Dependencies that lead in a circle, and a target on it. -/
inductive CycleError where
  | cycle (label : Label)
deriving DecidableEq

/-- The wording of a cycle. -/
def CycleError.message : CycleError → String
  | .cycle label => "dependency cycle detected at " ++ label.text

/-- What is kept of a target that was lowered. -/
structure Lowering where
  /-- What the target inherits from its dependencies. -/
  inherited : Delta
  /-- What the target adds for its consumers. -/
  exports : Delta
  /-- Both together: what its consumers inherit. -/
  passedOn : Delta
  /-- The outputs of its edges, in order. -/
  outputs : List String
deriving DecidableEq

/-- The outcome of lowering all targets of a project. -/
structure Assembly where
  /-- The edges, those of a producer before those of its consumers. -/
  edges : List Edge := []
  lowered : SortedMap Label Lowering := .empty
  failures : SortedMap Label TargetError := .empty
  /-- The targets that were not tried, each with the failed target that it depends on. -/
  skipped : SortedMap Label Label := .empty
deriving DecidableEq

namespace Assembly

/-- Whether every target was lowered. -/
def isSuccess (a : Assembly) : Bool := a.failures.isEmpty && a.skipped.isEmpty

/-- What a lowered target adds for its consumers. -/
def exports? (a : Assembly) (label : Label) : Option Delta :=
  (a.lowered.get? label).map Lowering.exports

/-- What a lowered target sees of its dependencies. -/
def bindings? (a : Assembly) (label : Label) : Option Bindings := do
  let lowering ← a.lowered.get? label
  (lowering.inherited.apply .empty).toOption

/-- The target that keeps `label` from being lowered, if it failed or was skipped. -/
def blockerOf? (a : Assembly) (label : Label) : Option Label :=
  match a.skipped.get? label with
  | some cause => some cause
  | none => if a.failures.contains label then some label else none

/-- The failed target behind the first of the dependencies that was not lowered. -/
def blocker? (a : Assembly) (dependencies : List Label) : Option Label :=
  dependencies.findSome? a.blockerOf?

/-- Record a failure. -/
def fail (a : Assembly) (error : TargetError) : Assembly :=
  { a with failures := a.failures.insert error.target error }

/-- Record that a target is not tried. -/
def skip (a : Assembly) (label cause : Label) : Assembly :=
  { a with skipped := a.skipped.insert label cause }

/-- Record a lowered target. -/
def record (a : Assembly) (label : Label) (lowering : Lowering) (edges : List Edge) : Assembly :=
  { a with edges := a.edges ++ edges, lowered := a.lowered.insert label lowering }

/-! ## Lowering one target -/

/-- What was inherited, and then what a dependency passes on. -/
def inheritFrom (a : Assembly) (delta : Delta) (dependency : Label) : Except DeltaError Delta :=
  match a.lowered.get? dependency with
  | some lowering => delta.compose lowering.passedOn
  | none => .ok delta

/-- What a target with these dependencies inherits. -/
def inherit (a : Assembly) (dependencies : List Label) : Except DeltaError Delta :=
  dependencies.foldlM a.inheritFrom .empty

/-- The files that an entry of the implicit field means: the outputs of the lowered target whose
label it is, or else the file of that path. -/
def expand (a : Assembly) (entry : String) : List String :=
  match Label.parse entry with
  | .ok label =>
    match a.lowered.get? label with
    | some lowering => lowering.outputs
    | none => [entry]
  | .error _ => [entry]

/-- The files that a consumer with these bindings waits for. -/
def implicitPaths (a : Assembly) (bindings : Bindings) : List String :=
  firstOccurrences ((bindings.list implicitField).flatMap a.expand)

/-- Complete edges by the files they wait for and check each, up to the first that is refused. -/
def finishEdges (rules : RuleTable) (implicit : List String) :
    List Edge → Except RuleError (List Edge)
  | [] => .ok []
  | edge :: rest => do
    let edge := edge.waitFor implicit
    rules.checkEdge edge
    return edge :: (← finishEdges rules implicit rest)

/-- What a target inherits and the files that it waits for, from its dependencies alone. -/
def prepare (a : Assembly) (target : Target) : Except TargetFault (Delta × List String) := do
  let inherited ← (a.inherit target.dependencies).mapError .delta
  let bindings ← (inherited.apply .empty).mapError fun clash => .delta clash.error
  return (inherited, a.implicitPaths bindings)

/-- Lower a prepared target for the environment that it kept. -/
def lower (rules : RuleTable) (target : Target) (inherited : Delta) (implicit : List String) :
    Except TargetError (Lowering × List Edge) := do
  let products ← target.products
  let edges ← target.blame ((finishEdges rules implicit products.edges).mapError .rule)
  let passedOn ← target.blame ((inherited.compose products.exports).mapError .delta)
  let outputs := edges.flatMap Edge.outputs
  return ({ inherited, exports := products.exports, passedOn, outputs }, edges)

/-- Take in the outcome of lowering a target. -/
def settle (a : Assembly) (label : Label) :
    Except TargetError (Lowering × List Edge) → Assembly
  | .error error => a.fail error
  | .ok (lowering, edges) => a.record label lowering edges

/-- Try to lower a target none of whose dependencies blocks it: what comes of it, and the target,
which may have resolved its environment. -/
def attempt (project : Project) (rules : RuleTable) (a : Assembly) (target : Target) :
    Except TargetError (Lowering × List Edge) × Target :=
  match a.prepare target with
  | .error fault => (.error ⟨target.label, fault⟩, target)
  | .ok (inherited, implicit) =>
    match target.resolve project with
    | (.error error, target) => (.error error, target)
    | (.ok _, target) => (lower rules target inherited implicit, target)

/-- Visit a target: the assembly afterwards, and the target as it is then. -/
def visit (project : Project) (rules : RuleTable) (a : Assembly) (target : Target) :
    Assembly × Target :=
  if a.failures.contains target.label then (a, target)
  else
    match a.blocker? target.dependencies with
    | some cause => (a.skip target.label cause, target)
    | none =>
      let (outcome, after) := a.attempt project rules target
      (a.settle target.label outcome, after)

end Assembly

/-! ## The whole project -/

/-- The place of the target with a label, which is its node in the graph: of several targets with that
label, the last. -/
def nodeOf? (targets : List Target) (label : Label) : Option (Fin targets.length) :=
  (List.finRange targets.length).reverse.find? fun i => (targets.get i).label = label

/-- The dependencies between targets: for each target in order and each of its dependencies that is
a target, an arc to the last target of the consumer's label. -/
def dependencyGraph (targets : List Target) : Graph targets.length :=
  ⟨targets.flatMap fun target =>
    match nodeOf? targets target.label with
    | none => []
    | some consumer => target.dependencies.filterMap fun dependency =>
      (nodeOf? targets dependency).map fun producer => (producer, consumer)⟩

/-- The assembly with a failure for each target that depends on something that is no target; of
several such dependencies the last is reported. -/
def unknownDependencies (targets : List Target) : Assembly :=
  targets.foldl (fun a target =>
    target.dependencies.foldl (fun a dependency =>
      match nodeOf? targets dependency with
      | some _ => a
      | none => a.fail ⟨target.label, .unknownDependency dependency⟩) a) {}

/-- Visit nodes in order, keeping the assembly and the targets as the visits leave them. -/
def visitAll (project : Project) (rules : RuleTable) (start : Assembly) (targets : List Target) :
    List Nat → Assembly × List Target
  | [] => (start, targets)
  | i :: rest =>
    match targets[i]? with
    | none => visitAll project rules start targets rest
    | some target =>
      let (next, after) := start.visit project rules target
      visitAll project rules next (targets.set i after) rest

/-- Lower all targets: the assembly, or a cycle, and the targets as they are afterwards. -/
def assembleKeeping (project : Project) (rules : RuleTable) (targets : List Target) :
    Except CycleError Assembly × List Target :=
  match (dependencyGraph targets).order with
  | .error node => (.error (.cycle (targets.get node).label), targets)
  | .ok order =>
    let (assembly, after) :=
      visitAll project rules (unknownDependencies targets) targets (order.map Fin.val)
    (.ok assembly, after)

/-- Lower all targets of a project. -/
def assemble (project : Project) (rules : RuleTable) (targets : List Target) :
    Except CycleError Assembly :=
  (assembleKeeping project rules targets).1

end BuildGraph
