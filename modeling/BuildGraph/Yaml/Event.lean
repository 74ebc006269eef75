import BuildGraph.SortedMap
import BuildGraph.Yaml.Token

/-!
# Events

The content of a document in the order of its text: scalars, and the starts and ends of sequences and
mappings, in which keys and values alternate. Tags are written out in full. An alias refers to an
anchor by number, and the document says at which event the node of that number begins.
-/

namespace BuildGraph.Yaml

/-- One part of the content of a document. -/
inductive Event where
  | scalar (tag : Option String) (text : String) (plain : Bool)
  | sequenceStart (tag : Option String)
  | sequenceEnd
  | mappingStart (tag : Option String)
  | mappingEnd
  | alias (anchor : Nat)
deriving DecidableEq, Repr

/-- The content of a document; no events if the text holds no document at all. -/
structure Document where
  events : List Event
  /-- Where the nodes of anchors begin, the latest first. -/
  anchors : List (Nat × Nat)

/-- How far the tokens of a document are read. -/
structure EventReader where
  tokens : List Token
  /-- What tag handles stand for. -/
  handles : List (String × String)
  /-- The events, the latest first. -/
  events : List Event := []
  /-- The number of each anchor's name. -/
  names : SortedMap String Nat := .empty
  anchors : List (Nat × Nat) := []

namespace EventReader

/-- A step of reading, which may fail. -/
abbrev Read := StateT EventReader Option

/-- The next token. -/
def peek : Read (Option Token) := return (← get).tokens.head?

/-- Move over a token. -/
def drop : Read Unit := modify fun reader => { reader with tokens := reader.tokens.drop 1 }

/-- Whether one of these tokens, or the end, is next. -/
def isNext (tokens : List Token) : Read Bool := return (← peek).all tokens.contains

/-- Give the node that begins with the next event a name. A new name takes the number of names so
far, and so does a name given again. -/
def register : Option String → Read Unit
  | none => return
  | some name => modify fun reader =>
    let number := reader.names.size
    { reader with
      names := reader.names.insert name number
      anchors := (number, reader.events.length) :: reader.anchors }

/-- Add an event. -/
def emit (event : Event) : Read Unit :=
  modify fun reader => { reader with events := event :: reader.events }

/-- Add a scalar without text. -/
def emitEmpty : Read Unit := emit (.scalar none "" true)

/-- The tag of a handle and what follows it. -/
def resolveTag (handle suffix : String) : Read String := do
  if handle.isEmpty then return suffix
  else
    match (← get).handles.lookup handle with
    | some target => return target ++ suffix
    | none => failure

/-- Read an anchor, if one is next. -/
def anchor? : Read (Option String) := do
  match ← peek with
  | some (.anchor name) => drop; return some name
  | _ => return none

/-- Read a tag, if one is next. -/
def tag? : Read (Option String) := do
  match ← peek with
  | some (.tag handle suffix) => do
    let tag ← resolveTag handle suffix
    drop
    return some tag
  | _ => return none

/-- Read the anchor and the tag of a node, in either order. -/
def properties : Read (Option String × Option String) := do
  match ← anchor? with
  | some name => return (some name, ← tag?)
  | none =>
    let tag ← tag?
    return (← anchor?, tag)

/-- The tag that counts for a scalar: the tag `!` says only that it is one. -/
def scalarTag (tag : Option String) : Option String := if tag == some "!" then none else tag

/-! ## Nodes

The first argument of each reader bounds the number of steps; every step but one to a reader of
another kind takes a token. -/

mutual

/-- Read a node. Between brackets there are no blocks; a value of a mapping may be a sequence without
indentation of its own. -/
def node : Nat → (block indentless : Bool) → Read Unit
  | 0, _, _ => failure
  | fuel + 1, block, indentless => do
    match ← peek with
    | some (.alias name) =>
      match (← get).names.get? name with
      | some number => drop; emit (.alias number)
      | none => failure
    | _ =>
      let (name, tag) ← properties
      match ← peek with
      | some (.scalar text plain) =>
        drop; register name; emit (.scalar (scalarTag tag) text plain)
      | some .flowSequenceStart =>
        drop; register name; emit (.sequenceStart tag); flowSequence fuel true
      | some .flowMappingStart =>
        drop; register name; emit (.mappingStart tag); flowMapping fuel true
      | token =>
        if indentless && token == some .blockEntry then
          register name; emit (.sequenceStart tag); indentlessSequence fuel
        else if block && token == some .blockSequenceStart then
          drop; register name; emit (.sequenceStart tag); blockSequence fuel
        else if block && token == some .blockMappingStart then
          drop; register name; emit (.mappingStart tag); blockMapping fuel
        else if name.isSome || tag.isSome then
          register name; emit (.scalar tag "" true)
        else failure

/-- Read a node, or an empty scalar if one of these tokens is next. -/
def nodeUnless : Nat → List Token → (block : Bool) → Read Unit
  | 0, _, _ => failure
  | fuel + 1, tokens, block => do
    if ← isNext tokens then emitEmpty else node fuel block block

/-- Read the entries of a sequence in a block. -/
def blockSequence : Nat → Read Unit
  | 0 => failure
  | fuel + 1 => do
    match ← peek with
    | some .blockEntry =>
      drop
      if ← isNext [.blockEntry, .blockEnd] then emitEmpty else node fuel true false
      blockSequence fuel
    | some .blockEnd => drop; emit .sequenceEnd
    | _ => failure

/-- Read the entries of a sequence at the indentation of the mapping around it. -/
def indentlessSequence : Nat → Read Unit
  | 0 => failure
  | fuel + 1 => do
    match ← peek with
    | some .blockEntry =>
      drop
      if ← isNext [.blockEntry, .key, .value, .blockEnd] then emitEmpty else node fuel true false
      indentlessSequence fuel
    | _ => emit .sequenceEnd

/-- Read the keys and values of a mapping in a block. -/
def blockMapping : Nat → Read Unit
  | 0 => failure
  | fuel + 1 => do
    match ← peek with
    | some .key =>
      drop
      nodeUnless fuel [.key, .value, .blockEnd] true
      match ← peek with
      | some .value =>
        drop
        nodeUnless fuel [.key, .value, .blockEnd] true
      | _ => emitEmpty
      blockMapping fuel
    | some .blockEnd => drop; emit .mappingEnd
    | _ => failure

/-- Read the entries of a sequence in brackets. -/
def flowSequence : Nat → (first : Bool) → Read Unit
  | 0, _ => failure
  | fuel + 1, first => do
    match ← peek with
    | some .flowSequenceEnd => drop; emit .sequenceEnd
    | token =>
      if !first then
        if token == some .flowEntry then drop else failure
      match ← peek with
      | some .flowSequenceEnd => drop; emit .sequenceEnd
      | some .key => drop; flowPair fuel; flowSequence fuel false
      | _ => node fuel false false; flowSequence fuel false

/-- Read a key and its value as an entry of a sequence in brackets, which is a mapping of its own.
The token at which an empty key is noticed is taken with it. -/
def flowPair : Nat → Read Unit
  | 0 => failure
  | fuel + 1 => do
    emit (.mappingStart none)
    if ← isNext [.value, .flowEntry, .flowSequenceEnd] then do drop; emitEmpty
    else node fuel false false
    match ← peek with
    | some .value => drop; nodeUnless fuel [.flowEntry, .flowSequenceEnd] false
    | _ => emitEmpty
    emit .mappingEnd

/-- Read the keys and values of a mapping in braces. -/
def flowMapping : Nat → (first : Bool) → Read Unit
  | 0, _ => failure
  | fuel + 1, first => do
    match ← peek with
    | some .flowMappingEnd => drop; emit .mappingEnd
    | token =>
      if !first then
        if token == some .flowEntry then drop else failure
      match ← peek with
      | some .flowMappingEnd => drop; emit .mappingEnd
      | some .key =>
        drop
        nodeUnless fuel [.value, .flowEntry, .flowMappingEnd] false
        match ← peek with
        | some .value => drop; nodeUnless fuel [.flowEntry, .flowMappingEnd] false
        | _ => emitEmpty
        flowMapping fuel false
      | _ =>
        node fuel false false
        emitEmpty
        flowMapping fuel false

end

/-! ## Documents -/

/-- The tag handles that need no directive. -/
def defaultHandles : List (String × String) := [("!", "!"), ("!!", "tag:yaml.org,2002:")]

/-- Read the directives of a document: whether the version is given, and the tag handles that
are. -/
def directives : Nat → (versionGiven : Bool) → List (String × String) → Read (Bool × List (String × String))
  | 0, given, handles => return (given, handles)
  | fuel + 1, given, handles => do
    match ← peek with
    | some (.versionDirective major minor) =>
      if given || major != 1 || (minor != 1 && minor != 2) then failure
      drop
      directives fuel true handles
    | some (.tagDirective handle target) =>
      if (handles.lookup handle).isSome then failure
      drop
      directives fuel given (handles ++ [(handle, target)])
    | _ => return (given, handles)

/-- Move over the end marks of a document. -/
def skipDocumentEnds : Nat → Read Unit
  | 0 => return
  | fuel + 1 => do
    if (← peek) == some .documentEnd then drop; skipDocumentEnds fuel

/-- Read the node of a document, which may be left out after a start mark. -/
def content (fuel : Nat) : Read Unit := do
  match ← peek with
  | some (.versionDirective ..) | some (.tagDirective ..) | some .documentStart =>
    let (_, handles) ← directives fuel false []
    modify fun reader => { reader with handles := handles ++ defaultHandles }
    if (← peek) != some .documentStart then failure
    drop
    match ← peek with
    | some (.versionDirective ..) | some (.tagDirective ..) => emitEmpty
    | _ =>
      if ← isNext [.documentStart, .documentEnd] then emitEmpty else node fuel true false
  | _ => node fuel true false

/-- Read the only document. -/
def document : Read Unit := do
  let fuel := 4 * (← get).tokens.length + 8
  if (← peek).isSome then
    content fuel
    skipDocumentEnds fuel
    if (← peek).isSome then failure

end EventReader

/-- The document of tokens, or nothing if they are no document or more than one. -/
def Document.ofTokens? (tokens : List Token) : Option Document := do
  let ((), reader) ←
    EventReader.document.run { tokens, handles := EventReader.defaultHandles }
  return { events := reader.events.reverse, anchors := reader.anchors }

end BuildGraph.Yaml
