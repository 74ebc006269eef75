import BuildGraph.Descriptor

/-!
# Failures

An error as it is shown at the end of a command: its message, and below it the errors that caused
it.
-/

namespace BuildGraph

/-- An error and the errors behind it, each the cause of the one before. -/
structure Failure where
  message : String
  causes : List String := []
deriving DecidableEq, Repr

namespace Failure

/-- Lines, those after the first one indented. -/
def indentRest (indent : String) (text : String) : String :=
  String.ofList (text.toList.flatMap fun c => if c == '\n' then '\n' :: indent.toList else [c])

/-- The causes, numbered if there are several. -/
def causeLines : List String → List String
  | [cause] => ["    " ++ indentRest "    " cause]
  | causes => causes.zipIdx.map fun (cause, i) =>
    let number := toString i
    String.ofList (List.replicate (5 - number.length) ' ') ++ number ++ ": " ++
      indentRest "       " cause

/-- How a failure is shown. -/
def text (failure : Failure) : String :=
  "Error: " ++ failure.message ++
    (if failure.causes.isEmpty then ""
      else "\n\nCaused by:\n" ++ String.intercalate "\n" (causeLines failure.causes)) ++ "\n"

end Failure

/-- The errors behind an error of loading, itself included. -/
def LoadError.chain : LoadError → List String
  | .single (.invalidParameters target error) =>
    [(LoadFault.invalidParameters target error).message, error.message]
  | .single .parse => [LoadFault.parse.message, LoadFault.parseReason]
  | error => [error.message]

end BuildGraph
