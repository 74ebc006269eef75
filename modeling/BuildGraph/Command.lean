import BuildGraph.Command.Arguments
import BuildGraph.Command.Files
import BuildGraph.Command.Plan
import BuildGraph.Descriptor.Text
import BuildGraph.Ninja
import BuildGraph.Verb.Standard

/-!
# Commands

Running a command: the descriptor is read, the project is assembled, and the outcome is shown or
written. Nothing is written unless every target was lowered; `plan` writes nothing at all.
-/

namespace BuildGraph

/-- What a command leaves behind besides files. -/
structure Report where
  /-- The exit code: zero if the command did what it was asked to. -/
  exit : UInt8
  stdout : String := ""
  stderr : String := ""
deriving DecidableEq

namespace Command

/-! ## The project -/

/-- Load and assemble the project of a path from the text of its descriptor. -/
def assembleText (path : String) (source : Except FileError String) :
    Except Failure (RuleTable × Assembly) := do
  let text ← source.mapError fun error =>
    { message := "Failed to read project: " ++ path, causes := [error.message] }
  let loaded ← (load .standard text).mapError fun error =>
    { message := "Failed to load project: " ++ path, causes := error.chain }
  let rules ← RuleTable.standard.mapError fun error =>
    { message := "Failed to build rule table", causes := [error.message] }
  let assembly ← (assemble loaded.project rules loaded.targets).mapError fun error =>
    { message := "Failed to assemble build graph", causes := [error.message] }
  return (rules, assembly)

/-! ## Running commands -/

/-- The report of a command that failed after showing something. -/
def failed (stdout stderr : String) (failure : Failure) : Report :=
  { exit := 1, stdout, stderr := stderr ++ failure.text }

/-- The report of `plan`. -/
def planReport (format : PlanFormat) : Except Failure (RuleTable × Assembly) → Report
  | .error failure => failed "" "" failure
  | .ok (_, assembly) =>
    let (stdout, stderr) := match format with
      | .json => ((Plan.json assembly).render ++ "\n", "")
      | .text => (Plan.text assembly, Plan.failureLines assembly)
    if assembly.isSuccess then { exit := 0, stdout, stderr }
    else failed stdout stderr (Plan.incomplete assembly)

/-- The text of the build file, or the report of `gen` if there is none to write. -/
def buildFile : Except Failure (RuleTable × Assembly) → Except Report (String × Nat)
  | .error failure => .error (failed "" "" failure)
  | .ok (rules, assembly) =>
    if assembly.isSuccess then .ok (Ninja.render rules assembly.edges, assembly.edges.length)
    else .error (failed "" (Plan.failureLines assembly) (Plan.incomplete assembly))

/-- The report of `gen` after writing. -/
def writtenReport (out : String) (count : Nat) : Except FileError Unit → Report
  | .ok () =>
    { exit := 0, stdout := "✓ Wrote " ++ toString count ++ " edge(s) to " ++ out ++ "\n" }
  | .error error =>
    failed "" "" { message := "Failed to write build file: " ++ out, causes := [error.message] }

/-- Run a command. -/
def run {m : Type → Type} [Monad m] [Files m] : Command → m Report
  | .gen project out => do
    match buildFile (assembleText project (← Files.read project)) with
    | .error report => return report
    | .ok (text, count) => return writtenReport out count (← Files.write out text)
  | .plan project format => do
    return planReport format (assembleText project (← Files.read project))

end Command

end BuildGraph
