import BuildGraph.Yaml.Event

/-!
# Nodes

The tree of a document, every alias replaced by the node that its anchor names. A document nests at
most 128 sequences and mappings, counted through aliases, and follows at most 100 aliases for each of
its events, so the tree is finite and of bounded size.
-/

namespace BuildGraph.Yaml

/-- A node of a document. -/
inductive Node where
  | scalar (tag : Option String) (text : String) (plain : Bool)
  | sequence (tag : Option String) (items : List Node)
  | mapping (tag : Option String) (entries : List (Node × Node))

/-- The greatest number of sequences and mappings inside each other. -/
def nestingLimit : Nat := 128

namespace Document

/-- A step of building the tree; the state is the number of aliases followed. -/
abbrev Build := StateT Nat Option

/-- Count an alias. -/
def countAlias (document : Document) : Build Unit := do
  let count := (← get) + 1
  if count > 100 * document.events.length then failure
  set count

/-- The node that events begin with, an alias replaced, and the events after it. Other nodes are read
by `own`. -/
def nodeWith (document : Document) (own : List Event → Build (Node × List Event)) :
    List Event → Build (Node × List Event)
  | .alias number :: rest => do
    document.countAlias
    match document.anchors.lookup number with
    | some position =>
      let (node, _) ← own (document.events.drop position)
      return (node, rest)
    | none => failure
  | events => own events

/-- The nodes up to an event that ends them, which is taken too. -/
def nodesUntil (node : List Event → Build (Node × List Event)) (stop : Event) :
    Nat → List Event → Build (List Node × List Event)
  | 0, _ => failure
  | fuel + 1, events =>
    match events with
    | [] => failure
    | event :: rest =>
      if event = stop then return ([], rest)
      else do
        let (first, rest) ← node events
        let (others, rest) ← nodesUntil node stop fuel rest
        return (first :: others, rest)

/-- Put nodes into pairs. -/
def pairs : List Node → List (Node × Node)
  | key :: value :: rest => (key, value) :: pairs rest
  | _ => []

/-- The node that events begin with, if it is no alias, and the events after it. -/
def own (document : Document) : (depth : Nat) → List Event → Build (Node × List Event)
  | _, .scalar tag text plain :: rest => return (.scalar tag text plain, rest)
  | depth + 1, .sequenceStart tag :: rest => do
    let (items, rest) ←
      nodesUntil (document.nodeWith (document.own depth)) .sequenceEnd rest.length rest
    return (.sequence tag items, rest)
  | depth + 1, .mappingStart tag :: rest => do
    let (items, rest) ←
      nodesUntil (document.nodeWith (document.own depth)) .mappingEnd rest.length rest
    return (.mapping tag (pairs items), rest)
  | _, _ => failure

/-- The tree of a document that is not empty. -/
def root? (document : Document) : Option Node := do
  let ((node, _), _) ← (document.own nestingLimit document.events).run 0
  return node

end Document

end BuildGraph.Yaml
