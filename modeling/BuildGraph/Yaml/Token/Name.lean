import BuildGraph.Yaml.Cursor
import BuildGraph.Yaml.Token

/-!
# Anchors, tags and directives

The names that are put on nodes, and the lines before a document that say how to read its tags. A
reader returns nothing if what it reads is not well formed.
-/

namespace BuildGraph.Yaml

/-! ## Anchors and aliases -/

/-- The characters that may follow the name of an anchor or alias, other than a blank, a line break
or the end. -/
def anchorFollowers : List Char := ['?', ':', ',', ']', '\x7d', '%', '@', '\x60']

/-- Read the name after a `&` or `*`. -/
def readAnchorName (cursor : Cursor) : Option (String × Cursor) :=
  let (name, next) := cursor.readWhile isNameChar
  if name.isEmpty || !(isSpaceOrEnd next.peek || next.isAtAny anchorFollowers) then none
  else some (String.ofList name, next)

/-! ## Tags -/

/-- The characters of a tag that stand for themselves; the flow indicators only where they cannot end
the tag. -/
def isUriChar (inBrackets : Bool) (c : Char) : Bool :=
  isNameChar c || ";/?:@&=+$.!~*'()".toList.contains c || (inBrackets && [',', '[', ']'].contains c)

/-- The octet written as `%` and two digits. -/
def octet? : List Char → Option Nat
  | '%' :: high :: low :: _ => do return 16 * (← hexDigit? high) + (← hexDigit? low)
  | _ => none

/-- Read the further octets of a character, six bits in each. -/
def readOctets : Nat → Nat → Cursor → Option (Nat × Cursor)
  | 0, value, cursor => some (value, cursor)
  | count + 1, value, cursor => do
    let octet ← octet? cursor.rest
    if octet / 64 = 2 then readOctets count (64 * value + octet % 64) (cursor.skip 3) else none

/-- Read a character that is written octet by octet. -/
def readEscapedChar (cursor : Cursor) : Option (Char × Cursor) := do
  let first ← octet? cursor.rest
  let (count, value) ←
    if first < 128 then some (0, first)
    else if first / 32 = 6 then some (1, first % 32)
    else if first / 16 = 14 then some (2, first % 16)
    else if first / 8 = 30 then some (3, first % 8)
    else none
  let (value, cursor) ← readOctets count value (cursor.skip 3)
  return (Char.ofNat value, cursor)

/-- Read the characters of a tag. -/
def readUri (inBrackets : Bool) : Nat → List Char → Cursor → Option (List Char × Cursor)
  | 0, uri, cursor => some (uri, cursor)
  | fuel + 1, uri, cursor =>
    match cursor.rest with
    | [] => some (uri, cursor)
    | c :: _ =>
      if c == '%' then do
        let (char, cursor) ← readEscapedChar cursor
        readUri inBrackets fuel (uri ++ [char]) cursor
      else if isUriChar inBrackets c then readUri inBrackets fuel (uri ++ [c]) cursor.skip
      else some (uri, cursor)

/-- Read the characters of a tag after some that are read already. -/
def readUriAfter (inBrackets : Bool) (start : List Char) (cursor : Cursor) :
    Option (List Char × Cursor) :=
  readUri inBrackets cursor.rest.length start cursor

/-- Read a `!`, a name, and a `!` after it if there is one. -/
def readTagHandle (cursor : Cursor) : Option (List Char × Cursor) :=
  if cursor.isAt '!' then
    let (name, next) := cursor.skip.readWhile isNameChar
    if next.isAt '!' then some ('!' :: name ++ ['!'], next.skip) else some ('!' :: name, next)
  else none

/-- Read a tag: its handle, which is empty for a tag written in full, and what follows the
handle. -/
def readTagParts (cursor : Cursor) : Option (String × String × Cursor) :=
  if cursor.peek 1 == some '<' then do
    let (uri, cursor) ← readUriAfter true [] (cursor.skip 2)
    if uri.isEmpty || !cursor.isAt '>' then none
    else return ("", String.ofList uri, cursor.skip)
  else do
    let (handle, cursor) ← readTagHandle cursor
    if handle.length ≥ 2 && handle.getLast? == some '!' then
      let (suffix, cursor) ← readUriAfter false [] cursor
      if suffix.isEmpty then none
      else return (String.ofList handle, String.ofList suffix, cursor)
    else
      let (suffix, cursor) ← readUriAfter false (handle.drop 1) cursor
      if suffix.isEmpty then return ("", "!", cursor)
      else return ("!", String.ofList suffix, cursor)

/-- Read a tag up to the blank, the line break or, between brackets, the comma after it. -/
def readTag (inFlow : Bool) (cursor : Cursor) : Option (Token × Cursor) := do
  let (handle, suffix, cursor) ← readTagParts cursor
  if isSpaceOrEnd cursor.peek || (inFlow && cursor.isAt ',') then
    return (.tag handle suffix, cursor)
  else none

/-! ## Directives -/

/-- Read a number of at most nine digits. -/
def readVersionNumber (cursor : Cursor) : Option (Nat × Cursor) :=
  let (digits, next) := cursor.readWhile Char.isDigit
  if digits.isEmpty || digits.length > 9 then none
  else some (digits.foldl (fun value c => 10 * value + (c.toNat - '0'.toNat)) 0, next)

/-- Read the version after `%YAML`. -/
def readVersion (cursor : Cursor) : Option (Token × Cursor) := do
  let (major, cursor) ← readVersionNumber cursor.skipBlanks
  if cursor.isAt '.' then
    let (minor, cursor) ← readVersionNumber cursor.skip
    return (.versionDirective major minor, cursor)
  else none

/-- Read the handle and what it stands for, after `%TAG`. -/
def readTagDirective (cursor : Cursor) : Option (Token × Cursor) := do
  let (handle, cursor) ← readTagHandle cursor.skipBlanks
  if handle != ['!'] && (handle.length < 2 || handle.getLast? != some '!') then none
  else if !cursor.isAtBlank then none
  else
    let (uri, cursor) ← readUriAfter true [] cursor.skipBlanks
    if uri.isEmpty || !isSpaceOrEnd cursor.peek then none
    else return (.tagDirective (String.ofList handle) (String.ofList uri), cursor)

/-- Read a directive after its `%`, and the rest of its line. -/
def readDirective (cursor : Cursor) : Option (Token × Cursor) := do
  let (name, cursor) := cursor.readWhile isNameChar
  if name.isEmpty || !isSpaceOrEnd cursor.peek then none
  else
    let (token, cursor) ←
      if name == "YAML".toList then readVersion cursor
      else if name == "TAG".toList then readTagDirective cursor
      else none
    let cursor := cursor.skipBlanks.skipComment
    if isBreakOrEnd cursor.peek then return (token, cursor.skipBreak) else none

end BuildGraph.Yaml
