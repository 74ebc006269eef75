import BuildGraph.Declaration

/-!
# The `objcopy` verb

Runs a binary patching tool over one input. The target lowers to a single edge, and its consumers
inherit its label in their implicit field.
-/

namespace BuildGraph

/-- A declared run of the tool. -/
structure Objcopy where
  project : Project
  label : Label
  /-- The name of the environment that binds the tool. -/
  environment : String
  source : Artifact
  /-- Options passed through to the tool. -/
  options : String
deriving DecidableEq

namespace Objcopy

/-- The word of the verb. -/
def word : String := "objcopy"

/-- The environment key of the tool, which the edge binds as a variable of the same name. -/
def toolKey : String := "objcopy"

/-- The edge variable of the options. -/
def optionsKey : String := "options"

/-- The rule of every edge of the verb. -/
def rule : Rule :=
  { name := "objcopy", command := "$objcopy $options $in $out", description := "OBJCOPY $out" }

/-- Where the output is written: in the package of the target, by its name. -/
def outputPath (objcopy : Objcopy) : String :=
  (Package.mk objcopy.project objcopy.label.package).outputPath objcopy.label.name

/-- The edge for a tool. -/
def edge (objcopy : Objcopy) (tool : String) : Edge :=
  { rule := rule.name
    inputs := [objcopy.project.inputPath objcopy.source]
    outputs := [objcopy.outputPath]
    assignments := SortedMap.ofList [(toolKey, tool), (optionsKey, objcopy.options)] }

/-- Lower for an environment. -/
def lower (objcopy : Objcopy) (environment : Environment) : Except TargetFault Products :=
  match environment.get? toolKey with
  | none => .error (.missingToolBinding toolKey)
  | some tool => .ok { exports := announcement objcopy.label, edges := [objcopy.edge tool] }

/-- The target. -/
def target (objcopy : Objcopy) : Target :=
  { label := objcopy.label
    verb := word
    isLeaf := true
    dependencies := objcopy.source.producer?.toList
    retention := .keep
    lookup := fun project => findEnvironment project objcopy.environment
    lower := objcopy.lower }

/-- The run declared as `name` in a package. -/
def make (package : Package) (name environment : String) (source : Artifact) (options : String) :
    Except LabelError Objcopy := do
  let label ← package.label name
  return { project := package.project, label, environment, source, options }

/-! ## Declarations -/

/-- The parameters of a declaration. -/
structure Parameters where
  environment : String
  src : String
  options : String
deriving DecidableEq, Repr

/-- The fields of a declaration. -/
def fieldNames : List String := ["environment", "src", "options"]

/-- Read parameters: every field is known and a text, and only the options may be missing. -/
def readParameters (value : Value) : Except ParameterError Parameters := do
  let fields ← value.readFields "Params"
  fields.forM fun (name, value) =>
    if fieldNames.contains name then value.readText >>= fun _ => .ok ()
    else .error (.unknownField name fieldNames)
  let environment ← Value.readField fields "environment" Value.readText
  let src ← Value.readField fields "src" Value.readText
  let options ← ((fields.lookup "options").getD (.string "")).readText
  return { environment, src, options }

/-- Read a declaration: the name is checked first, then the parameters, then the source. -/
def read (package : Package) (name : String) (value : Value) : Except LoadFault Objcopy := do
  let label ← (package.label name).mapError .label
  let parameters ← (readParameters value).mapError (.invalidParameters label)
  let source ← (Artifact.parse package.path parameters.src).mapError .label
  (make package name parameters.environment source parameters.options).mapError .label

/-- The verb. -/
def declare : Verb := fun package name value =>
  ((read package name value).mapError .single).map target

end Objcopy

end BuildGraph
