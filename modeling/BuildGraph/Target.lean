import BuildGraph.Bindings
import BuildGraph.Project
import BuildGraph.Rule

/-!
# Targets

A target is a declared build step. It is worked out in two steps: `resolve` finds its environment in
the project and keeps it, `products` turns the environment that was kept into edges and into the
delta that its consumers inherit.

Targets of every verb are values of one type, which holds what the verb decides: the dependencies,
the look-up of the environment, and the lowering of an environment to products.
-/

namespace BuildGraph

/-- Why a target cannot be lowered. -/
inductive TargetFault where
  | unknownEnvironment (name : String)
  | missingToolBinding (key : String)
  | notResolved
  | unknownDependency (dependency : Label)
  | rule (error : RuleError)
  | delta (error : DeltaError)
deriving DecidableEq

/-- A fault and the target that has it. -/
structure TargetError where
  target : Label
  fault : TargetFault
deriving DecidableEq

/-- The wording of each fault, without the target. -/
def TargetFault.message : TargetFault → String
  | .unknownEnvironment name => "unknown environment '" ++ name ++ "'"
  | .missingToolBinding key => "environment does not bind required key '" ++ key ++ "'"
  | .notResolved => "lowered before its environment was resolved"
  | .unknownDependency dependency => "depends on unknown target " ++ dependency.text
  | .rule error => error.message
  | .delta error => error.message

/-- The wording of an error names its target first. -/
def TargetError.message (error : TargetError) : String :=
  error.target.text ++ ": " ++ error.fault.message

/-- What lowering a target yields. -/
structure Products where
  /-- What changes for the consumers of the target. -/
  exports : Delta
  /-- The commands that make its outputs. -/
  edges : List Edge
deriving DecidableEq

/-- The environment of a project that a target names. -/
def findEnvironment (project : Project) (name : String) : Except TargetFault Environment :=
  (project.resolve name).mapError fun
    | .notFound name => .unknownEnvironment name

/-- The delta by which all consumers of a target, near or far, come to wait for its outputs. -/
def announcement (label : Label) : Delta := Delta.appending [(implicitField, [label.text])]

/-- How a target deals with the environment that it resolved first. -/
inductive Retention where
  /-- It is kept, and later look-ups are answered from it. -/
  | keep
  /-- It is kept, but a later look-up must succeed in its project all the same. -/
  | keepAndCheck
  /-- It is never kept. -/
  | forget
deriving DecidableEq, Repr

/-- A build step. -/
structure Target where
  label : Label
  /-- The word that it was declared with. -/
  verb : String
  /-- Whether no further targets come of it. -/
  isLeaf : Bool
  /-- The targets whose outputs it consumes, in order of declaration. -/
  dependencies : List Label
  retention : Retention
  /-- Find the environment in a project. -/
  lookup : Project → Except TargetFault Environment
  /-- Turn an environment into products. -/
  lower : Environment → Except TargetFault Products
  /-- The environment that was resolved first. -/
  resolved : Option Environment := none

namespace Target

/-- Report a fault of this target. -/
def blame {α : Type} (target : Target) (result : Except TargetFault α) : Except TargetError α :=
  result.mapError (TargetError.mk target.label)

/-- The target after an environment was found for it: the first one stays. -/
def retain (target : Target) (environment : Environment) : Target :=
  match target.retention, target.resolved with
  | .forget, _ => target
  | _, some _ => target
  | _, none => { target with resolved := some environment }

/-- Resolve the environment: the answer, and the target as it is afterwards. -/
def resolve (target : Target) (project : Project) : Except TargetError Environment × Target :=
  match target.retention, target.resolved with
  | .keep, some environment => (.ok environment, target)
  | _, _ =>
    match target.lookup project with
    | .error fault => (.error ⟨target.label, fault⟩, target)
    | .ok environment =>
      let next := target.retain environment
      (.ok (next.resolved.getD environment), next)

/-- The products for the environment that was kept. -/
def products (target : Target) : Except TargetError Products :=
  match target.resolved with
  | none => .error ⟨target.label, .notResolved⟩
  | some environment => target.blame (target.lower environment)

end Target

end BuildGraph
