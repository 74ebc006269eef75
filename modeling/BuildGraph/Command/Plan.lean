import BuildGraph.Assembly
import BuildGraph.Command.Failure
import BuildGraph.Json.Codec

/-!
# Plans

What an assembly holds, shown as text or as JSON, and how its failures are shown.
-/

namespace BuildGraph.Plan

/-- A line for each failed target, then for each one skipped. -/
def failureLines (assembly : Assembly) : String :=
  String.join <|
    assembly.failures.values.map (fun error => "✗ " ++ error.message ++ "\n") ++
      assembly.skipped.entries.map fun (label, cause) =>
        "⚠ " ++ label.text ++ ": skipped, depends on failed target " ++ cause.text ++ "\n"

/-- The failure of a command whose project has targets that were not lowered. -/
def incomplete (assembly : Assembly) : Failure :=
  { message :=
      toString assembly.failures.size ++ " target(s) failed, " ++ toString assembly.skipped.size ++
        " skipped" }

/-- The bindings of each lowered target, by the text of its label. -/
def bindingsByText (assembly : Assembly) : SortedMap String Bindings :=
  SortedMap.ofList <| assembly.lowered.keys.filterMap fun label =>
    (assembly.bindings? label).map fun bindings => (label.text, bindings)

/-- A plan as JSON; targets are in the order of the texts of their labels. -/
def json (assembly : Assembly) : Json :=
  let failures : SortedMap String String :=
    SortedMap.ofList <| assembly.failures.entries.map fun (label, error) =>
      (label.text, error.message)
  let skipped : SortedMap String String :=
    SortedMap.ofList <| assembly.skipped.entries.map fun (label, cause) => (label.text, cause.text)
  .object
    [("edges", JsonCodec.encode assembly.edges),
      ("bindings", JsonCodec.encode (bindingsByText assembly)),
      ("failures", JsonCodec.encode failures),
      ("skipped", JsonCodec.encode skipped)]

/-- The line of a bound field. -/
def bindingLine (field : String) : Binding → String
  | .list entries => "  " ++ field ++ " = " ++ String.intercalate " " entries ++ "\n"
  | .scalar value => "  " ++ field ++ " = " ++ value ++ "\n"

/-- The line of an edge. -/
def edgeLine (edge : Edge) : String :=
  "  " ++ edge.rule ++ " " ++ String.intercalate " " edge.inputs ++ " → " ++
    String.intercalate " " edge.outputs ++ "\n"

/-- A plan as text: the edges, then the bindings of each target that has any. -/
def text (assembly : Assembly) : String :=
  "Edges: " ++ toString assembly.edges.length ++ "\n" ++
    String.join (assembly.edges.map edgeLine) ++
    String.join ((bindingsByText assembly).entries.map fun (label, bindings) =>
      if bindings.isEmpty then ""
      else label ++ "\n" ++
        String.join (bindings.values.entries.map fun (field, value) => bindingLine field value))

end BuildGraph.Plan
