import BuildGraph.Command

/-!
# The program

Reads the command line, runs the command on the real file system and shows its report.
-/

namespace BuildGraph

/-- The error of a file that the system reports. -/
def FileError.ofIO : IO.Error → FileError
  | .noFileOrDirectory .. => .notFound
  | .inappropriateType _ code _ => if code = 20 then .notDirectory else .isDirectory
  | .userError _ => .notText
  | error => .other (toString error)

/-- Run an action on a file, its error as a value. -/
def attemptFile {α : Type} (action : IO α) : IO (Except FileError α) := do
  try return .ok (← action)
  catch error => return .error (.ofIO error)

instance : Files IO where
  read path := attemptFile (IO.FS.readFile path)
  write path text := attemptFile (IO.FS.writeFile path text)

/-- Run the command of a command line and show its report; the exit code. -/
def runArguments (arguments : List String) : IO UInt32 := do
  match Command.parse? arguments with
  | none =>
    (← IO.getStderr).putStr Command.usage
    return 2
  | some command =>
    let report : Report ← command.run
    (← IO.getStdout).putStr report.stdout
    (← IO.getStderr).putStr report.stderr
    return report.exit.toUInt32

end BuildGraph

/-- The program. -/
def main (arguments : List String) : IO UInt32 :=
  BuildGraph.runArguments arguments
