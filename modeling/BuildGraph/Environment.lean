import BuildGraph.SortedMap

/-!
# Toolchain environments

An environment binds keys (the paths of tools) to values. A project names its environments; targets
refer to them by name.
-/

namespace BuildGraph

/-- The variables that a toolchain binds. -/
abbrev Environment := SortedMap String String

/-- The environments of a project, by name. -/
abbrev EnvironmentRegistry := SortedMap String Environment

/-- A name that no environment has. -/
inductive ResolveError where
  | notFound (name : String)
deriving DecidableEq, Repr

/-- The wording of a failed lookup. -/
def ResolveError.message : ResolveError → String
  | .notFound name => "environment not found: " ++ name

/-- The environment of that name. -/
def EnvironmentRegistry.resolve (registry : EnvironmentRegistry) (name : String) :
    Except ResolveError Environment :=
  match registry.get? name with
  | some environment => .ok environment
  | none => .error (.notFound name)

end BuildGraph
