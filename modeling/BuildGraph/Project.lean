import BuildGraph.Artifact
import BuildGraph.Environment

/-!
# Projects and packages

A project fixes its named environments and the root below which outputs are written. The output of
`//package:name` is the file `genroot/package/name`.
-/

namespace BuildGraph

/-- The output root of a project that names none. -/
def defaultGenroot : PackagePath := ⟨"gen", by decide⟩

/-- The configuration that all targets of a project share. -/
structure Project where
  /-- The root below which outputs are written. -/
  genroot : PackagePath := defaultGenroot
  environments : EnvironmentRegistry
deriving DecidableEq

namespace Project

/-- Check an output root: a package path, with any number of `/` after it. -/
def parseGenroot (text : String) : Except LabelError PackagePath :=
  let trimmed := (text.toList.reverse.dropWhile (· == '/')).reverse
  match PackagePath.ofString (String.ofList trimmed) with
  | .ok genroot => .ok genroot
  | .error _ => .error (.invalidGenroot text)

/-- The project with these environments, below `genroot` if one is given. -/
def make (environments : EnvironmentRegistry) : Option String → Except LabelError Project
  | none => .ok { environments }
  | some text => (parseGenroot text).map fun genroot => { genroot, environments }

/-- The environment of that name. -/
def resolve (project : Project) (name : String) : Except ResolveError Environment :=
  EnvironmentRegistry.resolve project.environments name

/-- Where the target of that label writes its output. -/
def outputPath (project : Project) (label : Label) : String :=
  project.genroot.text ++ "/" ++ label.package.text ++ "/" ++ label.name

/-- The path of an input: a source file as it stands, a generated one where its producer writes
it. -/
def inputPath (project : Project) : Artifact → String
  | .source path => path
  | .output label => project.outputPath label

end Project

/-- One package of a project. -/
structure Package where
  project : Project
  path : PackagePath
deriving DecidableEq

namespace Package

/-- The label of `name` in this package. -/
def label (package : Package) (name : String) : Except LabelError Label :=
  Label.make package.path name

/-- Where an output called `name` is written; `name` is taken as it is. -/
def outputPath (package : Package) (name : String) : String :=
  package.project.genroot.text ++ "/" ++ package.path.text ++ "/" ++ name

/-- The outputs of targets are where the project has them. -/
theorem outputPath_name (project : Project) (label : Label) :
    (Package.mk project label.package).outputPath label.name = project.outputPath label := rfl

end Package

end BuildGraph
