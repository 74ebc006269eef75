/-!
# Command lines

`gen` writes the build file of a project, and `plan` shows what it would hold. The options of a
command come after it, each at most once.
-/

namespace BuildGraph

/-- How `plan` shows its result. -/
inductive PlanFormat where
  | text
  | json
deriving DecidableEq, Repr

/-- A request. -/
inductive Command where
  /-- Write the build file of a project. -/
  | gen (project out : String)
  /-- Show the edges and bindings of a project. -/
  | plan (project : String) (format : PlanFormat)
deriving DecidableEq, Repr

namespace Command

/-- The options of a command line. -/
structure Options where
  project : Option String := none
  out : Option String := none
  format : Option PlanFormat := none
  /-- Whether logging was asked for; the outcome does not depend on it. -/
  verbose : Bool := false

/-- An option that takes a value. -/
inductive OptionName where
  | project
  | out
  | format

/-- Set an option, unless it is set already or the value does not fit. -/
def Options.set? (options : Options) (name : OptionName) (value : String) : Option Options :=
  match name with
  | .project => if options.project.isNone then some { options with project := value } else none
  | .out => if options.out.isNone then some { options with out := value } else none
  | .format =>
    if options.format.isSome then none
    else if value == "text" then some { options with format := some .text }
    else if value == "json" then some { options with format := some .json }
    else none

/-- The option of a long name. -/
def longName? (name : List Char) : Option OptionName :=
  if name == "project".toList then some .project
  else if name == "out".toList then some .out
  else if name == "format".toList then some .format
  else none

/-- The option of a letter. -/
def shortName? : Char → Option OptionName
  | 'p' => some .project
  | 'o' => some .out
  | _ => none

/-- What an argument says: a switch, an option with its value, or one whose value is the next
argument. -/
inductive Argument where
  | verbose
  | option (name : OptionName) (value : String)
  | pending (name : OptionName)

/-- Read an argument. -/
def readArgument? : List Char → Option Argument
  | ['-', 'v'] => some .verbose
  | '-' :: '-' :: name =>
    if name == "verbose".toList then some .verbose
    else
      match name.span (· != '=') with
      | (name, []) => (longName? name).map .pending
      | (name, _ :: value) => (longName? name).map (.option · (String.ofList value))
  | ['-', letter] => (shortName? letter).map .pending
  | '-' :: letter :: '=' :: value => (shortName? letter).map (.option · (String.ofList value))
  | '-' :: letter :: value => (shortName? letter).map (.option · (String.ofList value))
  | _ => none

/-- Whether an argument can be the value of the option before it. -/
def isValue (argument : String) : Bool :=
  match argument.toList with
  | [] => false
  | ['-'] => true
  | '-' :: _ => false
  | _ => true

/-- Read the options of a command line. -/
def readOptions (options : Options) : List String → Option Options
  | [] => some options
  | argument :: rest => do
    match ← readArgument? argument.toList with
    | .verbose => if options.verbose then none else readOptions { options with verbose := true } rest
    | .option name value => readOptions (← options.set? name value) rest
    | .pending name =>
      match rest with
      | value :: rest => if isValue value then readOptions (← options.set? name value) rest else none
      | [] => none

/-- The path of the descriptor, unless an option names one. -/
def defaultProject : String := "lathe.yaml"

/-- The path of the build file, unless an option names one. -/
def defaultOut : String := "build.ninja"

/-- Read a command line: the command, and options after it. -/
def parse? : List String → Option Command
  | "gen" :: rest => do
    let options ← readOptions {} rest
    if options.format.isSome then none
    else return .gen (options.project.getD defaultProject) (options.out.getD defaultOut)
  | "plan" :: rest => do
    let options ← readOptions {} rest
    if options.out.isSome then none
    else return .plan (options.project.getD defaultProject) (options.format.getD .text)
  | "-v" :: rest | "--verbose" :: rest => parse? rest
  | _ => none

/-- How the program is called. -/
def usage : String :=
  "Usage: gen [-p PROJECT] [-o OUT]\n       plan [-p PROJECT] [--format text|json]\n"

end Command

end BuildGraph
