import BuildGraph.Bindings
import BuildGraph.Json
import BuildGraph.Project
import BuildGraph.Rule

/-!
# Data as JSON

How each type of the library is written as JSON and read back. Labels and package paths are strings
and are checked when read; maps are objects; a record is an object whose unknown members are passed
over, or an array of all its fields in order.
-/

namespace BuildGraph

/-- A type that is written as JSON and read back. -/
class JsonCodec (α : Type) where
  encode : α → Json
  decode : Json → Option α

namespace JsonCodec

/-! ## General forms -/

instance : JsonCodec String where
  encode := .string
  decode := Json.string?

instance {α : Type} [JsonCodec α] : JsonCodec (List α) where
  encode items := .array (items.map encode)
  decode json := json.array?.bind fun items => items.mapM decode

instance {α : Type} [JsonCodec α] : JsonCodec (SortedMap String α) where
  encode map := .object (map.entries.map fun (key, value) => (key, encode value))
  decode json := do
    let members ← json.object?
    let entries ← members.mapM fun (key, value) => (decode value).map fun value => (key, value)
    return SortedMap.ofList entries

/-- The value of the member of a name, if there is one. Several members of that name are an error. -/
def member? (members : List (String × Json)) (name : String) : Option (Option Json) :=
  match members.filter fun member => member.1 == name with
  | [] => some none
  | [(_, value)] => some (some value)
  | _ => none

/-- The fields of a record, written as an object or as an array in the order of `names`. A field
that an object lacks is `none`. -/
def fields? (names : List String) : Json → Option (List (Option Json))
  | .array items => if items.length = names.length then some (items.map some) else none
  | .object members => names.mapM (member? members)
  | _ => none

/-! ## Labels and artifacts -/

instance : JsonCodec PackagePath where
  encode path := .string path.text
  decode json := json.string?.bind fun text => (PackagePath.ofString text).toOption

instance : JsonCodec Label where
  encode label := .string label.text
  decode json := json.string?.bind fun text => (Label.parse text).toOption

/-- An object with the one member `source`, a path taken as it is, or `output`, a label. -/
instance : JsonCodec Artifact where
  encode
    | .source path => .object [("source", .string path)]
    | .output label => .object [("output", encode label)]
  decode
    | .object [(tag, value)] =>
      if tag == "source" then (decode value).map .source
      else if tag == "output" then (decode value).map .output
      else none
    | _ => none

/-! ## Deltas and bindings -/

/-- An object with the one member `append`, a list, or `override`, a string. -/
instance : JsonCodec DeltaOp where
  encode
    | .append entries => .object [("append", encode entries)]
    | .override value => .object [("override", encode value)]
  decode
    | .object [(tag, value)] =>
      if tag == "append" then (decode value).map .append
      else if tag == "override" then (decode value).map .override
      else none
    | _ => none

instance : JsonCodec Delta where
  encode delta := encode delta.ops
  decode json := (decode json).map Delta.mk

/-- A list or a string, told apart by its form. -/
instance : JsonCodec Binding where
  encode
    | .list entries => encode entries
    | .scalar value => encode value
  decode json :=
    match decode json with
    | some entries => some (.list entries)
    | none => (decode json).map .scalar

instance : JsonCodec Bindings where
  encode bindings := encode bindings.values
  decode json := (decode json).map Bindings.mk

/-! ## Rules and edges -/

instance : JsonCodec Rule where
  encode rule :=
    .object [("name", encode rule.name), ("command", encode rule.command),
      ("description", encode rule.description)]
  decode json :=
    match fields? ["name", "command", "description"] json with
    | some [some name, some command, some description] => do
      return {
        name := ← decode name, command := ← decode command, description := ← decode description }
    | _ => none

/-- The implicit inputs are left out if there are none. -/
instance : JsonCodec Edge where
  encode edge :=
    .object <|
      [("rule", encode edge.rule), ("inputs", encode edge.inputs)] ++
        (if edge.implicit.isEmpty then [] else [("implicit", encode edge.implicit)]) ++
        [("outputs", encode edge.outputs), ("variables", encode edge.assignments)]
  decode json :=
    match fields? ["rule", "inputs", "implicit", "outputs", "variables"] json with
    | some [some rule, some inputs, implicit, some outputs, some vars] => do
      return {
        rule := ← decode rule
        inputs := ← decode inputs
        implicit := ← match implicit with
          | some implicit => decode implicit
          | none => some []
        outputs := ← decode outputs
        assignments := ← decode vars }
    | _ => none

end JsonCodec

end BuildGraph
