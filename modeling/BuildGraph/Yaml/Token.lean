/-!
# Tokens

The smallest parts of a YAML document, layout made explicit: where a block begins and ends, and that
a scalar is a key.
-/

namespace BuildGraph.Yaml

/-- One part of a document. -/
inductive Token where
  | versionDirective (major minor : Nat)
  | tagDirective (handle target : String)
  | documentStart
  | documentEnd
  | blockSequenceStart
  | blockMappingStart
  | blockEnd
  | flowSequenceStart
  | flowSequenceEnd
  | flowMappingStart
  | flowMappingEnd
  | blockEntry
  | flowEntry
  | key
  | value
  | alias (name : String)
  | anchor (name : String)
  | tag (handle suffix : String)
  /-- A scalar, and whether it is written without quotes and not as a block. -/
  | scalar (text : String) (plain : Bool)
deriving DecidableEq, Repr

end BuildGraph.Yaml
