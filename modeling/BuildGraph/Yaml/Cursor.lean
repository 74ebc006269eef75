/-!
# Reading a document character by character

The classes of characters that the layout of a YAML document depends on, and a cursor that moves
through its text and knows the line and the column it is in.
-/

namespace BuildGraph.Yaml

/-! ## Characters -/

/-- The characters that a document may hold: tabs, line breaks and what can be printed. -/
def isAllowed (c : Char) : Bool :=
  let n := c.toNat
  n == 0x9 || n == 0xA || n == 0xD || (0x20 ≤ n && n ≤ 0x7E) || n == 0x85 ||
    (0xA0 ≤ n && n ≤ 0xD7FF) || (0xE000 ≤ n && n ≤ 0xFFFD) || 0x10000 ≤ n

/-- A character that ends a line. -/
def isBreak (c : Char) : Bool :=
  c == '\r' || c == '\n' || c == '\x85' || c == '\u2028' || c == '\u2029'

/-- A blank or a tab. -/
def isBlank (c : Char) : Bool := c == ' ' || c == '\t'

/-- A character of names: an ASCII letter or digit, `_` or `-`. -/
def isNameChar (c : Char) : Bool := c.isAlphanum || c == '_' || c == '-'

/-- Whether a position holds a line break or is the end. -/
def isBreakOrEnd (c : Option Char) : Bool := c.all isBreak

/-- Whether a position holds a blank or a line break or is the end. -/
def isSpaceOrEnd (c : Option Char) : Bool := c.all fun c => isBlank c || isBreak c

/-- The value of a hexadecimal digit. -/
def hexDigit? (c : Char) : Option Nat :=
  if c.isDigit then some (c.toNat - '0'.toNat)
  else if 'a' ≤ c && c ≤ 'f' then some (c.toNat - 'a'.toNat + 10)
  else if 'A' ≤ c && c ≤ 'F' then some (c.toNat - 'A'.toNat + 10)
  else none

/-! ## The cursor -/

/-- A place in a document. -/
structure Cursor where
  /-- The characters from here on. -/
  rest : List Char
  /-- The number of characters before. -/
  index : Nat := 0
  /-- The number of line breaks before. -/
  line : Nat := 0
  /-- The number of characters before on the same line. -/
  column : Nat := 0

namespace Cursor

/-- The character some places ahead. -/
def peek (cursor : Cursor) (ahead : Nat := 0) : Option Char := cursor.rest[ahead]?

/-- Whether the next character is this one. -/
def isAt (cursor : Cursor) (c : Char) : Bool := cursor.peek == some c

/-- Whether the next character is one of these. -/
def isAtAny (cursor : Cursor) (chars : List Char) : Bool := cursor.peek.any chars.contains

/-- Whether a blank or a tab is next. -/
def isAtBlank (cursor : Cursor) : Bool := cursor.peek.any isBlank

/-- Whether a line break is next. -/
def isAtBreak (cursor : Cursor) : Bool := cursor.peek.any isBreak

/-- Move over characters of the same line. -/
def skip (cursor : Cursor) (count : Nat := 1) : Cursor :=
  { cursor with
    rest := cursor.rest.drop count
    index := cursor.index + count
    column := cursor.column + count }

/-- Move over a line break, of which a carriage return and a line feed are one; without one stay.
The break as it counts in a text: of the separators of Unicode the character, else a line feed. -/
def readBreak (cursor : Cursor) : List Char × Cursor :=
  let next (count : Nat) : Cursor :=
    { rest := cursor.rest.drop count
      index := cursor.index + count
      line := cursor.line + 1
      column := 0 }
  match cursor.rest with
  | '\r' :: '\n' :: _ => (['\n'], next 2)
  | c :: _ =>
    if c == '\u2028' || c == '\u2029' then ([c], next 1)
    else if isBreak c then (['\n'], next 1)
    else ([], cursor)
  | [] => ([], cursor)

/-- Move over a line break, if one is next. -/
def skipBreak (cursor : Cursor) : Cursor := cursor.readBreak.2

/-- Move over all characters of a class without line breaks. -/
def readWhile (cursor : Cursor) (p : Char → Bool) : List Char × Cursor :=
  let chars := cursor.rest.takeWhile p
  (chars, cursor.skip chars.length)

/-- Move over all characters of a class without line breaks. -/
def skipWhile (cursor : Cursor) (p : Char → Bool) : Cursor := (cursor.readWhile p).2

/-- Move over blanks and tabs. -/
def skipBlanks (cursor : Cursor) : Cursor := cursor.skipWhile isBlank

/-- Move over a comment, if one is next. -/
def skipComment (cursor : Cursor) : Cursor :=
  if cursor.isAt '#' then cursor.skipWhile fun c => !isBreak c else cursor

/-- Whether three dots or three dashes stand alone at the start of a line. -/
def isAtDocumentMark (cursor : Cursor) : Bool :=
  cursor.column == 0 && (cursor.rest.take 3 == ['-', '-', '-'] || cursor.rest.take 3 == ['.', '.', '.'])
    && isSpaceOrEnd (cursor.peek 3)

end Cursor

end BuildGraph.Yaml
