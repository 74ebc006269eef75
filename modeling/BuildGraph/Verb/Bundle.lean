import BuildGraph.Declaration

/-!
# The `bundle` verb

Packs any number of inputs into one file. The target lowers to a single edge, and its consumers
inherit its label in their implicit field.
-/

namespace BuildGraph

/-- A declared bundle. -/
structure Bundle where
  project : Project
  label : Label
  /-- The name of the environment that binds the tool. -/
  environment : String
  sources : List Artifact
deriving DecidableEq

namespace Bundle

/-- The word of the verb. -/
def word : String := "bundle"

/-- The environment key of the tool, which the edge binds as a variable of the same name. -/
def toolKey : String := "tar"

/-- Where the output is written: in the package of the target, by its name. -/
def outputPath (bundle : Bundle) : String :=
  (Package.mk bundle.project bundle.label.package).outputPath bundle.label.name

/-- The edge for a tool. -/
def edge (bundle : Bundle) (tool : String) : Edge :=
  { rule := "bundle"
    inputs := bundle.sources.map bundle.project.inputPath
    outputs := [bundle.outputPath]
    assignments := SortedMap.ofList [(toolKey, tool)] }

/-- Lower for an environment. -/
def lower (bundle : Bundle) (environment : Environment) : Except TargetFault Products :=
  match environment.get? toolKey with
  | none => .error (.missingToolBinding toolKey)
  | some tool => .ok { exports := announcement bundle.label, edges := [bundle.edge tool] }

/-- The target. -/
def target (bundle : Bundle) : Target :=
  { label := bundle.label
    verb := word
    isLeaf := true
    dependencies := bundle.sources.filterMap Artifact.producer?
    retention := .keepAndCheck
    lookup := fun project => findEnvironment project bundle.environment
    lower := bundle.lower }

/-! ## Declarations -/

/-- The parameters of a declaration. -/
structure Parameters where
  environment : String
  srcs : List String
deriving DecidableEq, Repr

/-- Read parameters; fields that are not known are passed over. -/
def readParameters (value : Value) : Except ParameterError Parameters := do
  let fields ← value.readFields "BundleParams"
  fields.forM fun (name, value) =>
    if name == "environment" then value.readText >>= fun _ => .ok ()
    else if name == "srcs" then value.readTexts >>= fun _ => .ok ()
    else .ok ()
  let environment ← Value.readField fields "environment" Value.readText
  let srcs ← Value.readField fields "srcs" Value.readTexts
  return { environment, srcs }

/-- Read a declaration: the name is checked first, then the parameters, then the sources in
order. -/
def read (package : Package) (name : String) (value : Value) : Except LoadFault Bundle := do
  let label ← (package.label name).mapError .label
  let parameters ← (readParameters value).mapError (.invalidParameters label)
  let sources ← (parameters.srcs.mapM (Artifact.parse package.path)).mapError .label
  return { project := package.project, label, environment := parameters.environment, sources }

/-- The verb. -/
def declare : Verb := fun package name value =>
  ((read package name value).mapError .single).map target

end Bundle

end BuildGraph
