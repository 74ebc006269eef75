import BuildGraph.Descriptor
import BuildGraph.Yaml.Node
import BuildGraph.Yaml.Scalar
import BuildGraph.Yaml.Token.Lexer

/-!
# The text of descriptors

A descriptor is written in YAML. Where a text is expected, every scalar is taken by its text; an
empty scalar is an empty list or mapping where one of these is expected. The parameters of a
declaration are typed values.
-/

namespace BuildGraph

open Yaml (Node)

/-! ## Parameter values -/

namespace Value

mutual

/-- Whether two values are equal as keys: mappings whatever their order, zeros whatever their
sign. -/
def same : Value → Value → Bool
  | .null, .null => true
  | .bool a, .bool b => a == b
  | .int a, .int b => a == b
  | .float a, .float b => a.same b
  | .string a, .string b => a == b
  | .sequence a, .sequence b => sameItems a b
  | .mapping a, .mapping b => a.length == b.length && sameEntries a b
  | _, _ => false

/-- Whether two lists have equal items. -/
def sameItems : List Value → List Value → Bool
  | [], [] => true
  | a :: as, b :: bs => same a b && sameItems as bs
  | _, _ => false

/-- Whether each entry of one mapping is in another. -/
def sameEntries : List (Value × Value) → List (Value × Value) → Bool
  | [], _ => true
  | (key, value) :: rest, entries =>
    entries.any (fun (key', value') => same key key' && same value value') &&
      sameEntries rest entries

end

/-- Whether no two entries have equal keys. -/
def distinctKeys : List (Value × Value) → Bool
  | [] => true
  | (key, _) :: rest => !rest.any (fun (key', _) => same key key') && distinctKeys rest

/-- Whether a tag is one of the document's own, which no value carries. -/
def isLocalTag (tag : String) : Bool := tag.toList.head? == some '!'

/-- The value of a scalar. -/
def ofScalar? (tag : Option String) (text : String) (plain : Bool) : Option Value :=
  match tag with
  | none => if plain then Yaml.plainValue? text else some (.string text)
  | some tag =>
    if isLocalTag tag then none
    else if tag == "tag:yaml.org,2002:bool" then (Yaml.bool? text).map .bool
    else if tag == "tag:yaml.org,2002:int" then Yaml.integerValue? text
    else if tag == "tag:yaml.org,2002:float" then (Yaml.float? text.toList).map .float
    else if tag == "tag:yaml.org,2002:null" then
      if Yaml.isNull text then some .null else none
    else some (.string text)

mutual

/-- The value of a node. -/
def ofNode? : Node → Option Value
  | .scalar tag text plain => ofScalar? tag text plain
  | .sequence tag items => if tag.any isLocalTag then none else (ofNodes? items).map .sequence
  | .mapping tag entries =>
    if tag.any isLocalTag then none
    else (ofEntries? entries).bind fun entries =>
      if distinctKeys entries then some (.mapping entries) else none

/-- The values of nodes. -/
def ofNodes? : List Node → Option (List Value)
  | [] => some []
  | node :: rest => do return (← ofNode? node) :: (← ofNodes? rest)

/-- The values of the entries of a mapping. -/
def ofEntries? : List (Node × Node) → Option (List (Value × Value))
  | [] => some []
  | (key, value) :: rest => do return (← ofNode? key, ← ofNode? value) :: (← ofEntries? rest)

end

end Value

/-! ## The parts of a descriptor -/

namespace Descriptor

/-- The text of a scalar. -/
def text? : Node → Option String
  | .scalar _ text _ => some text
  | _ => none

/-- The items of a sequence. -/
def items? : Node → Option (List Node)
  | .sequence _ items => some items
  | .scalar _ "" true => some []
  | _ => none

/-- The entries of a mapping whose keys are scalars. -/
def entries? : Node → Option (List (String × Node))
  | .mapping _ entries => entries.mapM fun (key, value) => (text? key).map (·, value)
  | .scalar _ "" true => some []
  | _ => none

/-- A mapping whose values are read one by one; of equal keys the last counts. -/
def mapOf? {α : Type} (read : Node → Option α) (node : Node) : Option (SortedMap String α) := do
  let entries ← (← entries? node).mapM fun (key, value) => (read value).map (key, ·)
  return SortedMap.ofList entries

/-- A text that may be left out. -/
def optionalText? : Node → Option (Option String)
  | .scalar tag text plain =>
    if !plain then some (some text)
    else
      match tag with
      | none => some (if text.isEmpty || Yaml.isNull text then none else some text)
      | some tag =>
        if tag == "tag:yaml.org,2002:null" then
          if Yaml.isNull text then some none else none
        else some (some text)
  | _ => none

/-- The value of a field that a record has exactly once. -/
def field? (entries : List (String × Node)) (name : String) : Option Node :=
  match entries.filter (·.1 == name) with
  | [(_, node)] => some node
  | _ => none

/-- The value of a field that a record has at most once, or what stands for its absence. -/
def fieldOr? {α : Type} (entries : List (String × Node)) (name : String) (absent : α)
    (read : Node → Option α) : Option α :=
  match entries.filter (·.1 == name) with
  | [] => some absent
  | [(_, node)] => read node
  | _ => none

/-- A declaration: its verb, its name and, as parameters, everything else; of equal parameters the
last counts. -/
def declaration? (node : Node) : Option Declaration := do
  let entries ← entries? node
  let verb ← (field? entries "verb").bind text?
  let name ← (field? entries "name").bind text?
  let parameters ← (entries.filter fun (key, _) => key != "verb" && key != "name").mapM
    fun (key, value) => (Value.ofNode? value).map (key, ·)
  return { verb, name, parameters := SortedMap.ofList parameters }

/-- The declarations of a package. -/
def declarations? (node : Node) : Option (List Declaration) := do
  (← items? node).mapM declaration?

/-- The fields of a descriptor. -/
def fieldNames : List String := ["genroot", "environments", "packages"]

/-- The descriptor that a tree is. -/
def ofNode? (node : Node) : Option Descriptor := do
  let entries ← entries? node
  if !entries.all (fun (key, _) => fieldNames.contains key) then none
  else
    let genroot ← fieldOr? entries "genroot" none optionalText?
    let environments ← fieldOr? entries "environments" .empty (mapOf? (mapOf? text?))
    let packages ← fieldOr? entries "packages" .empty (mapOf? declarations?)
    return { genroot, environments, packages }

/-- The descriptor that a text is. A text without a document declares nothing. -/
def parse? (text : String) : Option Descriptor := do
  let document ← Yaml.Document.ofTokens? (← Yaml.tokenize text)
  if document.events.isEmpty then return {}
  else ofNode? (← document.root?)

end Descriptor

/-- Load the descriptor that a text is. -/
def load (verbs : VerbRegistry) (text : String) : Except LoadError Loaded :=
  match Descriptor.parse? text with
  | none => .error (.single .parse)
  | some descriptor => descriptor.load verbs

end BuildGraph
