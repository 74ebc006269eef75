import BuildGraph.Declaration

/-!
# Project descriptors

A descriptor lists what a project declares: its output root, its environments, and per package the
targets. Loading one turns it into a project and its targets. An invalid root or package path ends
it at once; errors of single declarations are collected, so one run reports all of them.
-/

namespace BuildGraph

/-- One declared target. -/
structure Declaration where
  verb : String
  name : String
  parameters : SortedMap String Value

/-- The parameters as one value. -/
def Declaration.value (declaration : Declaration) : Value :=
  .mapping (declaration.parameters.entries.map fun (name, value) => (.string name, value))

/-- What a project declares. -/
structure Descriptor where
  genroot : Option String := none
  environments : EnvironmentRegistry := .empty
  packages : SortedMap String (List Declaration) := .empty

/-- A project and its targets, by ascending package and then in order of declaration. -/
structure Loaded where
  project : Project
  targets : List Target

namespace Descriptor

/-- The declared targets with their packages, in order; the first invalid package path ends it. -/
def declarations (descriptor : Descriptor) (project : Project) :
    Except LabelError (List (Package × Declaration)) := do
  let packages ← descriptor.packages.entries.mapM fun (path, declarations) => do
    let path ← PackagePath.ofString path
    return declarations.map fun declaration => ({ project, path : Package }, declaration)
  return packages.flatten

/-- Make the target of a declaration. -/
def declare (verbs : VerbRegistry) (package : Package) (declaration : Declaration) :
    Except LoadError Target :=
  match verbs.get? declaration.verb with
  | none => .error (.single (.unknownVerb package.path.text declaration.verb))
  | some verb => verb package declaration.name declaration.value

/-- The outcome of each declaration, given the labels of the targets made before. A target whose
label is taken is an error. -/
def outcomes (verbs : VerbRegistry) (taken : List Label) :
    List (Package × Declaration) → List (Except LoadError Target)
  | [] => []
  | (package, declaration) :: rest =>
    match declare verbs package declaration with
    | .error error => .error error :: outcomes verbs taken rest
    | .ok target =>
      if taken.contains target.label then
        .error (.single (.duplicateTarget target.label)) :: outcomes verbs taken rest
      else .ok target :: outcomes verbs (target.label :: taken) rest

/-- The errors among outcomes, in order. -/
def errorsOf (outcomes : List (Except LoadError Target)) : List LoadError :=
  outcomes.filterMap fun
    | .error error => some error
    | .ok _ => none

/-- The targets among outcomes, in order. -/
def targetsOf (outcomes : List (Except LoadError Target)) : List Target :=
  outcomes.filterMap Except.toOption

/-- Load a descriptor. -/
def load (verbs : VerbRegistry) (descriptor : Descriptor) : Except LoadError Loaded := do
  let project ← (Project.make descriptor.environments descriptor.genroot).mapError LoadError.label
  let declarations ← (descriptor.declarations project).mapError LoadError.label
  let outcomes := outcomes verbs [] declarations
  match errorsOf outcomes with
  | [] => return { project, targets := targetsOf outcomes }
  | [error] => throw error
  | errors => throw (.declarations errors)

end Descriptor

end BuildGraph
