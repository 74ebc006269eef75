import BuildGraph.Label

/-!
# Artifacts

What a target consumes: a file of the source tree, or the output of another target. In a
declaration both are written as one reference, told apart by how it begins.
-/

namespace BuildGraph

/-- A line feed or a carriage return. A build file has no way to write either inside a path or a
value. -/
def isLineBreak (c : Char) : Bool := c == '\n' || c == '\r'

/-- Whether a text holds a line feed or a carriage return. -/
def hasLineBreak (s : String) : Bool := s.toList.any isLineBreak

/-- One input of a target. -/
inductive Artifact where
  /-- A file of the source tree, by its path from the project's root. -/
  | source (path : String)
  /-- The output of another target. -/
  | output (label : Label)
deriving DecidableEq

namespace Artifact

/-- A path that stays inside the project: not empty, not absolute, without `..` segments and without
line breaks. -/
def isSourcePath (cs : List Char) : Bool :=
  !cs.isEmpty && cs.head? != some '/' && !(cs.splitOn '/').contains ['.', '.'] &&
    !cs.any isLineBreak

/-- Whether a reference is written as a label, absolute (`//…`) or of the same package (`:…`). -/
def isLabelReference : List Char → Bool
  | '/' :: '/' :: _ => true
  | ':' :: _ => true
  | _ => false

/-- Read a reference written inside `package`. One that begins like a label is a label or an error,
never a source path. -/
def parse (package : PackagePath) (reference : String) : Except LabelError Artifact :=
  if isLabelReference reference.toList then
    (Label.parseIn package reference).map .output
  else if isSourcePath reference.toList then .ok (.source reference)
  else .error (.invalidSource reference)

/-- The target that produces the artifact, if it is generated. -/
def producer? : Artifact → Option Label
  | .source _ => none
  | .output label => some label

/-- The reference that means this artifact in every package. -/
def text : Artifact → String
  | .source path => path
  | .output label => label.text

instance : ToString Artifact := ⟨text⟩

end Artifact

end BuildGraph
