import BuildGraph.Json

/-!
# Reading JSON

A text is read one character at a time. The state says what may come next, and holds the values that
are begun and not ended yet, the innermost first. Blanks may stand between any two parts of a value.
Codes of characters above the first plane, which take two escapes, are not read.
-/

namespace BuildGraph.Json

namespace Reader

/-- What a value stands in: an array, or a member of an object, with the items or members before it.
The last of those comes first. -/
inductive Frame where
  | array (items : List Json)
  | object (members : List (String × Json)) (name : String)

/-- What a text in quotes is. -/
inductive Role where
  | value
  /-- The name of a member, after other members. -/
  | name (members : List (String × Json))

/-- How far a text is read. -/
inductive State where
  /-- A value comes. -/
  | value (frames : List Frame)
  /-- An array is opened. -/
  | array (frames : List Frame)
  /-- An object is opened. -/
  | object (frames : List Frame)
  /-- The name of a member comes. -/
  | name (members : List (String × Json)) (frames : List Frame)
  /-- The name of a member is read. -/
  | named (members : List (String × Json)) (name : String) (frames : List Frame)
  /-- A value is read. -/
  | done (value : Json) (frames : List Frame)
  /-- Inside a text; its last character comes first. -/
  | text (role : Role) (chars : List Char) (frames : List Frame)
  /-- After the backslash of an escape. -/
  | escape (role : Role) (chars : List Char) (frames : List Frame)
  /-- Inside the code of a character, after some digits. -/
  | code (role : Role) (chars : List Char) (digits value : Nat) (frames : List Frame)
  /-- Inside a word that stands for a value. -/
  | word (rest : List Char) (value : Json) (frames : List Frame)
  /-- Inside a number; its last character comes first. -/
  | number (chars : List Char) (frames : List Frame)

/-! ## Characters -/

/-- Whether a character may stand between the parts of a value. -/
def isBlank (c : Char) : Bool := c == ' ' || c == '\n' || c == '\t' || c == '\r'

/-- Whether a character may stand in a number. -/
def isNumeric (c : Char) : Bool :=
  c.isDigit || c == '-' || c == '+' || c == '.' || c == 'e' || c == 'E'

/-- The character that is meant by one after a backslash. -/
def escaped? : Char → Option Char
  | '"' => some '"'
  | '\\' => some '\\'
  | '/' => some '/'
  | 'b' => some '\x08'
  | 'f' => some '\x0c'
  | 'n' => some '\n'
  | 'r' => some '\r'
  | 't' => some '\t'
  | _ => none

/-- The value of a digit to the base of sixteen. -/
def hexDigit? (c : Char) : Option Nat :=
  if '0' ≤ c ∧ c ≤ '9' then some (c.toNat - '0'.toNat)
  else if 'a' ≤ c ∧ c ≤ 'f' then some (c.toNat - 'a'.toNat + 10)
  else if 'A' ≤ c ∧ c ≤ 'F' then some (c.toNat - 'A'.toNat + 10)
  else none

/-! ## Steps -/

/-- A value begins. -/
def beginValue (frames : List Frame) (c : Char) : Option State :=
  if c == '-' || c.isDigit then some (.number [c] frames)
  else
    match c with
    | '"' => some (.text .value [] frames)
    | '[' => some (.array frames)
    | '\x7b' => some (.object frames)
    | 'n' => some (.word "ull".toList .null frames)
    | 't' => some (.word "rue".toList (.bool true) frames)
    | 'f' => some (.word "alse".toList (.bool false) frames)
    | _ => none

/-- A value is read, and another character comes. -/
def afterValue (value : Json) (frames : List Frame) (c : Char) : Option State :=
  if isBlank c then some (.done value frames)
  else
    match c, frames with
    | ',', .array items :: frames => some (.value (.array (value :: items) :: frames))
    | ']', .array items :: frames => some (.done (.array (value :: items).reverse) frames)
    | ',', .object members name :: frames => some (.name ((name, value) :: members) frames)
    | '\x7d', .object members name :: frames =>
      some (.done (.object ((name, value) :: members).reverse) frames)
    | _, _ => none

/-- The name of a member begins. -/
def beginName (members : List (String × Json)) (frames : List Frame) : Char → Option State
  | '"' => some (.text (.name members) [] frames)
  | _ => none

/-- A text ends. -/
def endText (role : Role) (chars : List Char) (frames : List Frame) : State :=
  match role with
  | .value => .done (.string (String.ofList chars.reverse)) frames
  | .name members => .named members (String.ofList chars.reverse) frames

/-- The number that some characters are, the last one first. -/
def number? (chars : List Char) : Option Json :=
  if h : JsonNumber.isNumber (String.ofList chars.reverse).toList = true then
    some (.number ⟨String.ofList chars.reverse, h⟩)
  else none

/-- Read one more character. -/
def step : State → Char → Option State
  | .value frames, c => if isBlank c then some (.value frames) else beginValue frames c
  | .array frames, c =>
    if isBlank c then some (.array frames)
    else if c == ']' then some (.done (.array []) frames)
    else beginValue (.array [] :: frames) c
  | .object frames, c =>
    if isBlank c then some (.object frames)
    else if c == '\x7d' then some (.done (.object []) frames)
    else beginName [] frames c
  | .name members frames, c =>
    if isBlank c then some (.name members frames) else beginName members frames c
  | .named members name frames, c =>
    if isBlank c then some (.named members name frames)
    else if c == ':' then some (.value (.object members name :: frames))
    else none
  | .done value frames, c => afterValue value frames c
  | .text role chars frames, c =>
    if c == '"' then some (endText role chars frames)
    else if c == '\\' then some (.escape role chars frames)
    else if c.toNat < 32 then none
    else some (.text role (c :: chars) frames)
  | .escape role chars frames, c =>
    if c == 'u' then some (.code role chars 0 0 frames)
    else (escaped? c).map fun meant => .text role (meant :: chars) frames
  | .code role chars digits value frames, c =>
    (hexDigit? c).bind fun digit =>
      if digits < 3 then some (.code role chars (digits + 1) (16 * value + digit) frames)
      else if (16 * value + digit).isValidChar then
        some (.text role (Char.ofNat (16 * value + digit) :: chars) frames)
      else none
  | .word [] _ _, _ => none
  | .word (next :: rest) value frames, c =>
    if c != next then none
    else if rest.isEmpty then some (.done value frames)
    else some (.word rest value frames)
  | .number chars frames, c =>
    if isNumeric c then some (.number (c :: chars) frames)
    else (number? chars).bind fun value => afterValue value frames c

/-- The value that is read at the end of a text. -/
def finish : State → Option Json
  | .done value [] => some value
  | .number chars [] => number? chars
  | _ => none

end Reader

/-- The value that a text is. -/
def read? (text : String) : Option Json :=
  (text.toList.foldlM Reader.step (.value [])).bind Reader.finish

end BuildGraph.Json
