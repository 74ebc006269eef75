import BuildGraph.Yaml.Token.Name
import BuildGraph.Yaml.Token.Scalar

/-!
# From text to tokens

The lexer reads a document from left to right. In blocks, the columns of lines decide where blocks
begin and end. That a scalar is a key shows only at the `:` after it: the lexer remembers where a key
may have begun and puts the tokens in front of it when the `:` comes. Such a key stands on one line
and is at most 1024 characters long.
-/

namespace BuildGraph.Yaml

/-- A place where a key may have begun. -/
structure KeyCandidate where
  /-- Whether it has to be one: it stands at the indentation of its block. -/
  required : Bool
  /-- The number of tokens before it. -/
  token : Nat
  index : Nat
  line : Nat
  column : Nat

/-- How far the lexer has come. -/
structure Lexer where
  cursor : Cursor
  /-- The indentation of the block, -1 outside of all. -/
  indent : Int := -1
  /-- The indentations of the blocks around it, the inner ones first. -/
  outer : List Int := []
  /-- The candidates between the innermost brackets. -/
  candidate : Option KeyCandidate := none
  /-- The candidates between the brackets around them, the inner ones first; as many as there are
  brackets. -/
  enclosing : List (Option KeyCandidate) := []
  /-- Whether a key may begin here. -/
  keyAllowed : Bool := true
  /-- The tokens, the latest first. -/
  tokens : List Token := []

namespace Lexer

/-- Whether the place is between brackets. -/
def inFlow (lexer : Lexer) : Bool := !lexer.enclosing.isEmpty

/-- Add a token. -/
def emit (lexer : Lexer) (token : Token) : Lexer := { lexer with tokens := token :: lexer.tokens }

/-- Put a token after the first `count` ones. -/
def emitAt (lexer : Lexer) (count : Nat) (token : Token) : Lexer :=
  { lexer with tokens := lexer.tokens.insertIdx (lexer.tokens.length - count) token }

/-- Move over characters of the same line. -/
def skip (lexer : Lexer) (count : Nat := 1) : Lexer :=
  { lexer with cursor := lexer.cursor.skip count }

/-- Say whether a key may begin next. -/
def allowKey (lexer : Lexer) (allowed : Bool) : Lexer := { lexer with keyAllowed := allowed }

/-! ## Indentation -/

/-- Begin a block at a column that is right of the block around it, with its token after the first
`count` ones. Between brackets there are no blocks. -/
def openBlock (lexer : Lexer) (column : Nat) (count : Nat) (token : Token) : Lexer :=
  if !lexer.inFlow && lexer.indent < column then
    { lexer with indent := column, outer := lexer.indent :: lexer.outer }.emitAt count token
  else lexer

/-- End the blocks among `outer` that are right of a column. -/
def closeBlocksFrom (column : Int) (tokens : List Token) (indent : Int) :
    List Int → Int × List Int × List Token
  | [] => (indent, [], tokens)
  | next :: outer =>
    if indent > column then closeBlocksFrom column (.blockEnd :: tokens) next outer
    else (indent, next :: outer, tokens)

/-- End the blocks that are right of a column. -/
def closeBlocks (lexer : Lexer) (column : Int) : Lexer :=
  if lexer.inFlow then lexer
  else
    let (indent, outer, tokens) := closeBlocksFrom column lexer.tokens lexer.indent lexer.outer
    { lexer with indent, outer, tokens }

/-! ## Keys -/

/-- Give up the candidate; one that has to be a key is an error. -/
def dropCandidate (lexer : Lexer) : Option Lexer :=
  if lexer.candidate.any KeyCandidate.required then none
  else some { lexer with candidate := none }

/-- Remember that a key may begin here. -/
def markCandidate (lexer : Lexer) : Option Lexer :=
  if lexer.keyAllowed then do
    let required := !lexer.inFlow && lexer.indent == lexer.cursor.column
    let lexer ← lexer.dropCandidate
    return { lexer with
      candidate := some
        { required
          token := lexer.tokens.length
          index := lexer.cursor.index
          line := lexer.cursor.line
          column := lexer.cursor.column } }
  else some lexer

/-- Whether a candidate began too long ago. -/
def isStale (cursor : Cursor) (candidate : KeyCandidate) : Bool :=
  candidate.line < cursor.line || candidate.index + 1024 < cursor.index

/-- The candidates without those that began too long ago, which must not have to be keys. -/
def dropStale (cursor : Cursor) :
    List (Option KeyCandidate) → Option (List (Option KeyCandidate))
  | [] => some []
  | candidate :: rest =>
    if candidate.any (isStale cursor) then
      if candidate.any KeyCandidate.required then none
      else (dropStale cursor rest).map (none :: ·)
    else (dropStale cursor rest).map (candidate :: ·)

/-- Give up all candidates that began too long ago. -/
def refreshCandidates (lexer : Lexer) : Option Lexer := do
  match ← dropStale lexer.cursor (lexer.candidate :: lexer.enclosing) with
  | candidate :: enclosing => return { lexer with candidate, enclosing }
  | [] => return lexer

/-! ## Single tokens -/

/-- Move to the next token, over blanks, comments and line breaks. -/
def skipSpace : Nat → Lexer → Lexer
  | 0, lexer => lexer
  | fuel + 1, lexer =>
    let tabs := lexer.inFlow || !lexer.keyAllowed
    let cursor :=
      (lexer.cursor.skipWhile fun c => c == ' ' || (tabs && c == '\t')).skipComment
    if cursor.isAtBreak then
      skipSpace fuel { lexer with
        cursor := cursor.skipBreak
        keyAllowed := lexer.keyAllowed || !lexer.inFlow }
    else { lexer with cursor }

/-- Read the start or end mark of a document. -/
def documentMark (lexer : Lexer) (token : Token) : Option Lexer := do
  let lexer ← (lexer.closeBlocks (-1)).dropCandidate
  return ((lexer.allowKey false).skip 3).emit token

/-- Read a directive. -/
def directive (lexer : Lexer) : Option Lexer := do
  let lexer ← (lexer.closeBlocks (-1)).dropCandidate
  let (token, cursor) ← readDirective lexer.cursor.skip
  return ({ lexer with cursor }.allowKey false).emit token

/-- Read an opening bracket. -/
def openBracket (lexer : Lexer) (token : Token) : Option Lexer := do
  let lexer ← lexer.markCandidate
  return (({ lexer with
    candidate := none
    enclosing := lexer.candidate :: lexer.enclosing }.allowKey true).skip).emit token

/-- Read a closing bracket. -/
def closeBracket (lexer : Lexer) (token : Token) : Option Lexer := do
  let lexer ← lexer.dropCandidate
  let lexer := match lexer.enclosing with
    | candidate :: enclosing => { lexer with candidate, enclosing }
    | [] => lexer
  return ((lexer.allowKey false).skip).emit token

/-- Read a comma between brackets. -/
def comma (lexer : Lexer) : Option Lexer := do
  let lexer ← lexer.dropCandidate
  return ((lexer.allowKey true).skip).emit .flowEntry

/-- Begin a block at this column, which has to be a place where a key may begin. -/
def openBlockHere (lexer : Lexer) (token : Token) : Option Lexer :=
  if lexer.inFlow then some lexer
  else if lexer.keyAllowed then
    some (lexer.openBlock lexer.cursor.column lexer.tokens.length token)
  else none

/-- Read the dash of an entry. -/
def dash (lexer : Lexer) : Option Lexer := do
  let lexer ← (← lexer.openBlockHere .blockSequenceStart).dropCandidate
  return ((lexer.allowKey true).skip).emit .blockEntry

/-- Read the mark of a key. -/
def keyMark (lexer : Lexer) : Option Lexer := do
  let lexer ← (← lexer.openBlockHere .blockMappingStart).dropCandidate
  return ((lexer.allowKey !lexer.inFlow).skip).emit .key

/-- Read the mark of a value. With a candidate, that is the key; without one the key is empty. -/
def valueMark (lexer : Lexer) : Option Lexer := do
  let lexer ← match lexer.candidate with
    | some candidate =>
      let lexer := lexer.emitAt candidate.token .key
      let lexer := lexer.openBlock candidate.column candidate.token .blockMappingStart
      pure ({ lexer with candidate := none }.allowKey false)
    | none => do
      let lexer ← lexer.openBlockHere .blockMappingStart
      pure (lexer.allowKey !lexer.inFlow)
  return lexer.skip.emit .value

/-- Read an anchor or an alias. -/
def anchor (lexer : Lexer) (token : String → Token) : Option Lexer := do
  let lexer ← lexer.markCandidate
  let (name, cursor) ← readAnchorName lexer.cursor.skip
  return ({ lexer with cursor }.allowKey false).emit (token name)

/-- Read a tag. -/
def tag (lexer : Lexer) : Option Lexer := do
  let lexer ← lexer.markCandidate
  let (token, cursor) ← readTag lexer.inFlow lexer.cursor
  return ({ lexer with cursor }.allowKey false).emit token

/-- Read a block scalar. -/
def blockScalar (lexer : Lexer) (literal : Bool) : Option Lexer := do
  let lexer ← lexer.dropCandidate
  let (text, cursor) ← readBlock literal lexer.indent lexer.cursor.skip
  return ({ lexer with cursor }.allowKey true).emit (.scalar (String.ofList text) false)

/-- Read a scalar in quotes. -/
def quotedScalar (lexer : Lexer) (single : Bool) : Option Lexer := do
  let lexer ← lexer.markCandidate
  let (text, cursor) ← readQuoted single lexer.cursor.rest.length [] lexer.cursor.skip
  return ({ lexer with cursor }.allowKey false).emit (.scalar (String.ofList text) false)

/-- Read a scalar without quotes. After a line break in it a key may begin. -/
def plainScalar (lexer : Lexer) : Option Lexer := do
  let lexer ← lexer.markCandidate
  let margin := (lexer.indent + 1).toNat
  let (text, cursor, broken) ←
    readPlain lexer.inFlow margin (lexer.cursor.rest.length + 1) [] {} lexer.cursor
  return ({ lexer with cursor }.allowKey broken).emit (.scalar (String.ofList text) true)

/-- The characters that begin something other than a scalar without quotes. -/
def indicators : List Char :=
  ['-', '?', ':', ',', '[', ']', '\x7b', '\x7d', '#', '&', '*', '!', '|', '>', '\'', '"', '%', '@',
    '\x60']

/-- Whether a scalar without quotes begins with this character and the one after it. -/
def startsPlain (inFlow : Bool) (c : Char) (next : Option Char) : Bool :=
  !(isBlank c || isBreak c || indicators.contains c) ||
    (c == '-' && !next.any isBlank) ||
    (!inFlow && (c == '?' || c == ':') && !isSpaceOrEnd next)

/-- Read the token that begins with this character. -/
def token (lexer : Lexer) (c : Char) : Option Lexer :=
  let next := lexer.cursor.peek 1
  if lexer.cursor.column == 0 && c == '%' then lexer.directive
  else if lexer.cursor.isAtDocumentMark then
    lexer.documentMark (if c == '-' then .documentStart else .documentEnd)
  else if c == '[' then lexer.openBracket .flowSequenceStart
  else if c == '\x7b' then lexer.openBracket .flowMappingStart
  else if c == ']' then lexer.closeBracket .flowSequenceEnd
  else if c == '\x7d' then lexer.closeBracket .flowMappingEnd
  else if c == ',' then lexer.comma
  else if c == '-' && isSpaceOrEnd next then lexer.dash
  else if c == '?' && (lexer.inFlow || isSpaceOrEnd next) then lexer.keyMark
  else if c == ':' && (lexer.inFlow || isSpaceOrEnd next) then lexer.valueMark
  else if c == '*' then lexer.anchor .alias
  else if c == '&' then lexer.anchor .anchor
  else if c == '!' then lexer.tag
  else if c == '|' && !lexer.inFlow then lexer.blockScalar true
  else if c == '>' && !lexer.inFlow then lexer.blockScalar false
  else if c == '\'' then lexer.quotedScalar true
  else if c == '"' then lexer.quotedScalar false
  else if startsPlain lexer.inFlow c next then lexer.plainScalar
  else none

/-- At the end of the text, end all blocks. A key that has to be one would need a `:`. -/
def finish (lexer : Lexer) : Option (List Token) := do
  let lexer ← (lexer.closeBlocks (-1)).dropCandidate
  return lexer.tokens.reverse

/-- Read tokens to the end. Each takes at least one character, so their number is bounded. -/
def run : Nat → Lexer → Option (List Token)
  | 0, lexer => lexer.finish
  | fuel + 1, lexer => do
    let lexer ← (skipSpace (lexer.cursor.rest.length + 1) lexer).refreshCandidates
    let lexer := lexer.closeBlocks lexer.cursor.column
    match lexer.cursor.peek with
    | none => lexer.finish
    | some c => (← lexer.token c).run fuel

end Lexer

/-- The tokens of a text, or nothing if it is not well formed. A byte order mark at its start is passed
over as a blank would be: the first line goes on one column to the right of it. -/
def tokenize (text : String) : Option (List Token) :=
  let chars := text.toList
  let start : Cursor := { rest := chars }
  let cursor := if start.isAt '\ufeff' then start.skip else start
  if chars.all isAllowed then Lexer.run (chars.length + 1) { cursor } else none

end BuildGraph.Yaml
