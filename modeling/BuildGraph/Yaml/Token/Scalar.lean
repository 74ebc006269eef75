import BuildGraph.Yaml.Cursor

/-!
# The text of scalars

Scalars without quotes, in single quotes, in double quotes, and as literal or folded blocks. In the
first three a line break between words counts as a blank, and further ones as themselves. A reader
returns nothing if the scalar is not well formed.
-/

namespace BuildGraph.Yaml

/-! ## Gaps between words -/

/-- The blanks and line breaks between two words. -/
structure Gap where
  /-- The blanks, if there is no line break. -/
  blanks : List Char := []
  /-- The first line break. -/
  first : List Char := []
  /-- The further line breaks. -/
  more : List Char := []
  /-- Whether there is a line break. -/
  broken : Bool := false

namespace Gap

/-- What a gap contributes to the text. -/
def text (gap : Gap) : List Char :=
  if gap.broken then
    if gap.first == ['\n'] then (if gap.more.isEmpty then [' '] else gap.more)
    else gap.first ++ gap.more
  else gap.blanks

/-- Move over blanks and line breaks. A tab left of `margin` in a new line is refused. -/
def read (margin : Nat) : Nat → Gap → Cursor → Option (Gap × Cursor)
  | 0, gap, cursor => some (gap, cursor)
  | fuel + 1, gap, cursor =>
    if cursor.isAtBlank then
      if gap.broken then
        if cursor.column < margin && cursor.isAt '\t' then none
        else read margin fuel gap cursor.skip
      else
        read margin fuel { gap with blanks := gap.blanks ++ cursor.rest.take 1 } cursor.skip
    else if cursor.isAtBreak then
      let (chars, next) := cursor.readBreak
      if gap.broken then read margin fuel { gap with more := gap.more ++ chars } next
      else read margin fuel { gap with blanks := [], first := chars, broken := true } next
    else some (gap, cursor)

end Gap

/-! ## Scalars without quotes -/

/-- The word that text begins with, up to a blank, a line break, a `:` before either, or, between
brackets, an indicator. Between brackets a `:` directly before an indicator is refused. -/
def plainWord (inFlow : Bool) : List Char → Option (List Char)
  | [] => some []
  | c :: rest =>
    if isBlank c || isBreak c then some []
    else if inFlow && c == ':' && rest.head?.any [',', '?', '[', ']', '\x7b', '\x7d'].contains then
      none
    else if c == ':' && isSpaceOrEnd rest.head? then some []
    else if inFlow && [',', '[', ']', '\x7b', '\x7d'].contains c then some []
    else (plainWord inFlow rest).map (c :: ·)

/-- Read words, joined by their gaps. In a block the scalar ends at a line that does not reach the
margin. The text, the place after it, and whether the last gap was a line break. -/
def readPlain (inFlow : Bool) (margin : Nat) :
    Nat → List Char → Gap → Cursor → Option (List Char × Cursor × Bool)
  | 0, text, gap, cursor => some (text, cursor, gap.broken)
  | fuel + 1, text, gap, cursor => do
    if cursor.isAtDocumentMark || cursor.isAt '#' then return (text, cursor, gap.broken)
    let word ← plainWord inFlow cursor.rest
    let cursor := cursor.skip word.length
    let (text, gap) : List Char × Gap :=
      if word.isEmpty then (text, gap) else (text ++ gap.text ++ word, {})
    if cursor.isAtBlank || cursor.isAtBreak then
      let (gap, cursor) ← gap.read margin cursor.rest.length cursor
      if !inFlow && cursor.column < margin then return (text, cursor, gap.broken)
      else readPlain inFlow margin fuel text gap cursor
    else return (text, cursor, gap.broken)

/-! ## Scalars in quotes -/

/-- The character that a letter after a backslash means. -/
def simpleEscape? : Char → Option Char
  | '0' => some '\x00'
  | 'a' => some '\x07'
  | 'b' => some '\x08'
  | 't' => some '\t'
  | '\t' => some '\t'
  | 'n' => some '\n'
  | 'v' => some '\x0b'
  | 'f' => some '\x0c'
  | 'r' => some '\r'
  | 'e' => some '\x1b'
  | ' ' => some ' '
  | '"' => some '"'
  | '/' => some '/'
  | '\\' => some '\\'
  | 'N' => some '\x85'
  | '_' => some '\xa0'
  | 'L' => some '\u2028'
  | 'P' => some '\u2029'
  | _ => none

/-- The number of digits after a letter that introduces a code point. -/
def codeDigits? : Char → Option Nat
  | 'x' => some 2
  | 'u' => some 4
  | 'U' => some 8
  | _ => none

/-- The code point of hexadecimal digits. -/
def codePoint? (digits : List Char) : Option Char := do
  let value ← digits.foldlM (fun value c => (hexDigit? c).map (16 * value + ·)) 0
  if h : value.isValidChar then some (Char.ofNatAux value h) else none

/-- The character that text after a backslash means, and how much of the text it takes. -/
def escape? : List Char → Option (Char × Nat)
  | [] => none
  | c :: rest =>
    match codeDigits? c with
    | none => (simpleEscape? c).map (·, 1)
    | some count =>
      if rest.length < count then none
      else (codePoint? (rest.take count)).map (·, count + 1)

/-- Read characters in quotes up to a blank, a line break or the closing quote: the characters, the
place after them, and whether a backslash before a line break ended them. -/
def readQuotedWord (single : Bool) : Nat → List Char → Cursor → Option (List Char × Cursor × Bool)
  | 0, word, cursor => some (word, cursor, false)
  | fuel + 1, word, cursor =>
    match cursor.rest with
    | [] => some (word, cursor, false)
    | c :: rest =>
      if isBlank c || isBreak c then some (word, cursor, false)
      else if single then
        if c == '\'' then
          if rest.head? == some '\'' then readQuotedWord single fuel (word ++ ['\'']) (cursor.skip 2)
          else some (word, cursor, false)
        else readQuotedWord single fuel (word ++ [c]) cursor.skip
      else if c == '"' then some (word, cursor, false)
      else if c == '\\' then
        if rest.head?.any isBreak then some (word, cursor.skip.skipBreak, true)
        else do
          let (char, count) ← escape? rest
          readQuotedWord single fuel (word ++ [char]) (cursor.skip (count + 1))
      else readQuotedWord single fuel (word ++ [c]) cursor.skip

/-- Read words in quotes, joined by their gaps, up to and with the closing quote. -/
def readQuoted (single : Bool) : Nat → List Char → Cursor → Option (List Char × Cursor)
  | 0, _, _ => none
  | fuel + 1, text, cursor => do
    if cursor.isAtDocumentMark || cursor.rest.isEmpty then none
    else
      let (word, cursor, escaped) ← readQuotedWord single cursor.rest.length [] cursor
      let text := text ++ word
      if !escaped && cursor.isAt (if single then '\'' else '"') then return (text, cursor.skip)
      else
        let (gap, cursor) ← Gap.read 0 cursor.rest.length { broken := escaped } cursor
        readQuoted single fuel (text ++ gap.text) cursor

/-! ## Scalars as blocks -/

/-- What the line breaks at the end of a block count for. -/
inductive Chomping where
  /-- None counts. -/
  | strip
  /-- One counts. -/
  | clip
  /-- All count. -/
  | keep
deriving DecidableEq

/-- Read the marks after the `|` or `>` of a block, in either order. -/
def readBlockHeader (cursor : Cursor) : Option (Chomping × Option Nat × Cursor) :=
  let chomping (cursor : Cursor) : Chomping × Cursor :=
    if cursor.isAt '+' then (.keep, cursor.skip)
    else if cursor.isAt '-' then (.strip, cursor.skip)
    else (.clip, cursor)
  let indentation (cursor : Cursor) : Option (Option Nat × Cursor) :=
    match cursor.peek with
    | some c =>
      if c == '0' then none
      else if c.isDigit then some (some (c.toNat - '0'.toNat), cursor.skip)
      else some (none, cursor)
    | none => some (none, cursor)
  if cursor.isAt '+' || cursor.isAt '-' then do
    let (mark, cursor) := chomping cursor
    let (indent, cursor) ← indentation cursor
    return (mark, indent, cursor)
  else do
    let (indent, cursor) ← indentation cursor
    match indent with
    | none => return (.clip, none, cursor)
    | some _ =>
      let (mark, cursor) := chomping cursor
      return (mark, indent, cursor)

/-- Move over empty lines and the indentation of the next one, which is found out if it is not
given: the breaks, the place after them, and the widest line start seen. A tab in the indentation is
refused. -/
def readBlockBreaks (indent : Option Nat) :
    Nat → List Char → Nat → Cursor → Option (List Char × Nat × Cursor)
  | 0, breaks, widest, cursor => some (breaks, widest, cursor)
  | fuel + 1, breaks, widest, cursor =>
    let blanks := (cursor.rest.takeWhile (· == ' ')).length
    let cursor := cursor.skip <| match indent with
      | none => blanks
      | some indent => min blanks (indent - cursor.column)
    let widest := max widest cursor.column
    if cursor.isAt '\t' && indent.all (cursor.column < ·) then none
    else if cursor.isAtBreak then
      let (chars, cursor) := cursor.readBreak
      readBlockBreaks indent fuel (breaks ++ chars) widest cursor
    else some (breaks, widest, cursor)

/-- What a block has read so far. -/
structure BlockText where
  text : List Char := []
  /-- The break after the last line. -/
  first : List Char := []
  /-- The breaks of the empty lines after it. -/
  more : List Char := []
  /-- Whether the last line begins with a blank. -/
  indented : Bool := false

/-- Read the lines of a block of that indentation. -/
def readBlockLines (literal : Bool) (indent : Nat) :
    Nat → BlockText → Cursor → Option (BlockText × Cursor)
  | 0, block, cursor => some (block, cursor)
  | fuel + 1, block, cursor =>
    if cursor.column == indent && !cursor.rest.isEmpty then do
      let blank := cursor.isAtBlank
      let joint :=
        if !literal && block.first == ['\n'] && !block.indented && !blank then
          (if block.more.isEmpty then [' '] else [])
        else block.first
      let (line, cursor) := cursor.readWhile fun c => !isBreak c
      let (first, cursor) := cursor.readBreak
      let (more, _, cursor) ← readBlockBreaks (some indent) (cursor.rest.length + 1) [] 0 cursor
      readBlockLines literal indent fuel
        { text := block.text ++ joint ++ block.more ++ line, first, more, indented := blank } cursor
    else some (block, cursor)

/-- Read a block after its `|` or `>`, inside a block of the indentation `outer`, which is -1 at the
top. -/
def readBlock (literal : Bool) (outer : Int) (cursor : Cursor) : Option (List Char × Cursor) := do
  let (chomping, given, cursor) ← readBlockHeader cursor
  let cursor := cursor.skipBlanks.skipComment
  if !isBreakOrEnd cursor.peek then none
  else
    let cursor := cursor.skipBreak
    let given := given.map fun more => (max outer 0).toNat + more
    let (more, widest, cursor) ← readBlockBreaks given (cursor.rest.length + 1) [] 0 cursor
    let indent := given.getD (max widest (max (outer + 1) 1).toNat)
    let (block, cursor) ←
      readBlockLines literal indent (cursor.rest.length + 1) { more } cursor
    return (block.text ++
      match chomping with
      | .strip => []
      | .clip => block.first
      | .keep => block.first ++ block.more, cursor)

end BuildGraph.Yaml
