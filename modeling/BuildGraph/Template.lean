import BuildGraph.SortedMap

/-!
# Command templates

The text of a command with variables in it. `$name` and `${name}` are variables, `$$`, `$ ` and `$:`
stand for the character after the `$`, and `$` before a line feed continues the line, the blanks at
the start of the next one dropped. No other line break is allowed.

A template is read in two steps: into pieces, one per literal character or variable, and from pieces
into segments, in which neighbouring literal characters are one text.
-/

namespace BuildGraph

/-- A stretch of literal text, escapes resolved, or a variable. -/
inductive Segment where
  | literal (text : String)
  | variable (name : String)
deriving DecidableEq, Repr

/-- What is wrong with a template, and at which byte of its UTF-8 text the construct begins. -/
inductive TemplateError where
  | dangling
  | unclosed (position : Nat)
  | emptyName (position : Nat)
  | invalidName (position : Nat) (name : String)
  | lineBreak (position : Nat)
  | badEscape (position : Nat) (char : Char)
deriving DecidableEq, Repr

/-- The wording of each error. -/
def TemplateError.message : TemplateError → String
  | .dangling => "dangling '$' at end of template"
  | .unclosed position => "unclosed '$\x7b' at position " ++ toString position
  | .emptyName position => "empty variable name at position " ++ toString position
  | .invalidName position name =>
    "invalid variable name '" ++ name ++ "' at position " ++ toString position
  | .lineBreak position =>
    "line break at position " ++ toString position ++
      ": only '$' followed by a newline may continue a line"
  | .badEscape position char =>
    "invalid escape '$" ++ String.singleton char ++ "' at position " ++ toString position

namespace Template

/-- The characters of a variable written without braces. -/
def isNameChar (c : Char) : Bool := c.isAlphanum || c == '_' || c == '-'

/-- The characters of a variable written in braces. -/
def isBracedNameChar (c : Char) : Bool := isNameChar c || c == '.'

/-- The characters that a `$` before them makes literal. -/
def isEscapable (c : Char) : Bool := c == '$' || c == ' ' || c == ':'

/-! ## Pieces -/

/-- The smallest parts of a template. -/
inductive Piece where
  | char (c : Char)
  | variable (name : String)
deriving DecidableEq, Repr

/-- Where in a construct the reader stands. Names are collected back to front; a position is that of
the `$` that opened the construct. -/
inductive State where
  /-- Between constructs. -/
  | text
  /-- After a `$`. -/
  | dollar (position : Nat)
  /-- In a variable without braces. -/
  | bare (name : List Char)
  /-- In a variable with braces. -/
  | braced (position : Nat) (name : List Char)
  /-- In the blanks after a continued line. -/
  | continued

/-- The piece of a variable collected back to front. -/
def variablePiece (name : List Char) : Piece := .variable (String.ofList name.reverse)

/-- Check a variable in braces. -/
def checkBraced (position : Nat) (name : List Char) : Except TemplateError Piece :=
  if name.isEmpty then .error (.emptyName position)
  else if name.all isBracedNameChar then .ok (variablePiece name)
  else .error (.invalidName position (String.ofList name.reverse))

/-- One character read between constructs: a `$` opens one, a line break is refused, and anything
else is literal. -/
def stepText (position : Nat) (c : Char) : Except TemplateError (List Piece × State) :=
  if c == '\n' || c == '\r' then .error (.lineBreak position)
  else if c == '$' then .ok ([], .dollar position)
  else .ok ([.char c], .text)

/-- One character at a byte position: the pieces that it completes and the state after it. -/
def step (position : Nat) : State → Char → Except TemplateError (List Piece × State)
  | .text, c => stepText position c
  | .dollar start, c =>
    if isEscapable c then .ok ([.char c], .text)
    else if c == '\n' then .ok ([], .continued)
    else if c == '\x7b' then .ok ([], .braced start [])
    else if isNameChar c then .ok ([], .bare [c])
    else .error (.badEscape start c)
  | .bare name, c =>
    if isNameChar c then .ok ([], .bare (c :: name))
    else (stepText position c).map fun (pieces, state) => (variablePiece name :: pieces, state)
  | .braced start name, c =>
    if c == '\x7d' then (checkBraced start name).map fun piece => ([piece], .text)
    else .ok ([], .braced start (c :: name))
  | .continued, c => if c == ' ' then .ok ([], .continued) else stepText position c

/-- The pieces that the end of the text completes. -/
def finish : State → Except TemplateError (List Piece)
  | .text => .ok []
  | .dollar _ => .error .dangling
  | .bare name => .ok [variablePiece name]
  | .braced start _ => .error (.unclosed start)
  | .continued => .ok []

/-- The pieces of the rest of a template, read from a byte position on. -/
def pieces (position : Nat) (state : State) : List Char → Except TemplateError (List Piece)
  | [] => finish state
  | c :: rest => do
    let (done, next) ← step position state c
    return done ++ (← pieces (position + c.utf8Size) next rest)

/-! ## Segments -/

/-- Put a piece before segments; a literal character joins the literal text that follows it. -/
def consPiece : Piece → List Segment → List Segment
  | .char c, .literal text :: rest => .literal (String.ofList (c :: text.toList)) :: rest
  | .char c, rest => .literal (String.singleton c) :: rest
  | .variable name, rest => .variable name :: rest

/-- The segments of a list of pieces. -/
def segments (pieces : List Piece) : List Segment := pieces.foldr consPiece []

/-- Read a template. -/
def parse (text : String) : Except TemplateError (List Segment) :=
  (pieces 0 .text text.toList).map segments

/-- The names of the variables among segments, in ascending order. -/
def variableNames (segments : List Segment) : SortedMap String Unit :=
  SortedMap.ofList <| segments.filterMap fun
    | .variable name => some (name, ())
    | .literal _ => none

/-- The names of the variables of a template, in ascending order. -/
def names (text : String) : Except TemplateError (SortedMap String Unit) :=
  (parse text).map variableNames

end Template

end BuildGraph
