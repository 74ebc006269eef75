import BuildGraph.SortedMap

/-!
# Edges

An edge is one command of the build: the rule it runs, the files it reads and writes, and the values
of its variables.
-/

namespace BuildGraph

/-- One use of a rule. -/
structure Edge where
  rule : String
  /-- The files that the command is given, in order. -/
  inputs : List String
  /-- The files that the edge waits for without giving them to the command. -/
  implicit : List String := []
  outputs : List String
  assignments : SortedMap String String
deriving DecidableEq

namespace Edge

/-- Wait for further files, except those that the edge names already. -/
def waitFor (edge : Edge) : List String → Edge
  | [] => edge
  | path :: paths =>
    if edge.inputs.contains path || edge.implicit.contains path then edge.waitFor paths
    else { edge with implicit := edge.implicit ++ [path] }.waitFor paths

end Edge

end BuildGraph
