import BuildGraph.Rule

/-!
# Ninja build files

The text of a build file: a header, the rules by ascending name, and the edges in order with their
variables by ascending name. A `$` makes the next character of a path or a value literal; templates
are written as they stand.
-/

namespace BuildGraph.Ninja

/-- The characters that end or separate paths unless a `$` is before them. -/
def isPathSpecial (c : Char) : Bool := c == '$' || c == ' ' || c == ':'

/-- Write a path. -/
def escapePath (path : List Char) : List Char :=
  path.flatMap fun c => if isPathSpecial c then ['$', c] else [c]

/-- Write the value of a variable, in which only `$` is special. -/
def escapeValue (value : List Char) : List Char :=
  value.flatMap fun c => if c == '$' then ['$', '$'] else [c]

/-- The line at the top of every build file. -/
def header : List Char := "# Generated by lathe. Do not edit.\n".toList

/-- Paths, each with a blank before it. -/
def pathList (paths : List String) : List Char :=
  paths.flatMap fun path => ' ' :: escapePath path.toList

/-- Paths with a blank between each two. -/
def joinPaths (paths : List String) : List Char :=
  [' '].intercalate (paths.map fun path => escapePath path.toList)

theorem joinPaths_singleton (path : String) : joinPaths [path] = escapePath path.toList :=
  List.intercalate_singleton

theorem joinPaths_cons_cons (path next : String) (paths : List String) :
    joinPaths (path :: next :: paths) =
      escapePath path.toList ++ ' ' :: joinPaths (next :: paths) := by
  rw [joinPaths, List.map_cons, List.map_cons, List.intercalate_cons_cons, List.append_assoc]
  rfl

/-- A line that gives a variable a written value. -/
def variableLine (key : String) (value : List Char) : List Char :=
  ' ' :: ' ' :: key.toList ++ [' ', '=', ' '] ++ value ++ ['\n']

/-- A rule, with an empty line after it. -/
def renderRule (rule : Rule) : List Char :=
  "rule ".toList ++ rule.name.toList ++ ['\n'] ++
    variableLine "command" rule.command.toList ++
    variableLine "description" rule.description.toList ++ ['\n']

/-- The line of an edge after the word `build` and a blank. -/
def buildLine (edge : Edge) : List Char :=
  joinPaths edge.outputs ++ [':', ' '] ++ edge.rule.toList ++ pathList edge.inputs ++
    (if edge.implicit.isEmpty then [] else [' ', '|'] ++ pathList edge.implicit) ++ ['\n']

/-- An edge, with an empty line after it. -/
def renderEdge (edge : Edge) : List Char :=
  "build ".toList ++ buildLine edge ++
    edge.assignments.entries.flatMap (fun (key, value) => variableLine key (escapeValue value.toList)) ++
    ['\n']

/-- The build file of rules and edges. -/
def render (rules : RuleTable) (edges : List Edge) : String :=
  String.ofList <|
    header ++ ['\n'] ++ rules.toList.flatMap renderRule ++ edges.flatMap renderEdge

end BuildGraph.Ninja
