import BuildGraph.Value

/-!
# Typed scalars

What a scalar without quotes means: null, a truth value, a number, or else its text. Integers are
decimal, hexadecimal, octal or binary; a decimal with a leading zero is a text.
-/

namespace BuildGraph.Yaml

/-- Whether a scalar is written as null. -/
def isNull (text : String) : Bool := ["~", "null", "Null", "NULL"].contains text

/-- A truth value. -/
def bool? (text : String) : Option Bool :=
  if ["true", "True", "TRUE"].contains text then some true
  else if ["false", "False", "FALSE"].contains text then some false
  else none

/-! ## Integers -/

/-- The value of a digit. -/
def digit? (base : Nat) (c : Char) : Option Nat :=
  let value :=
    if c.isDigit then c.toNat - '0'.toNat
    else if 'a' ≤ c && c ≤ 'z' then c.toNat - 'a'.toNat + 10
    else if 'A' ≤ c && c ≤ 'Z' then c.toNat - 'A'.toNat + 10
    else base
  if value < base then some value else none

/-- The number of at least one digit. -/
def natural? (base : Nat) (digits : List Char) : Option Nat :=
  if digits.isEmpty then none
  else digits.foldlM (fun value c => (digit? base c).map (base * value + ·)) 0

/-- Take a sign off a text: whether it is a minus. -/
def splitSign : List Char → Bool × List Char
  | '+' :: rest => (false, rest)
  | '-' :: rest => (true, rest)
  | text => (false, text)

/-- Several digits, the first of them zero. -/
def hasLeadingZero (text : List Char) : Bool :=
  match (splitSign text).2 with
  | '0' :: c :: rest => (c :: rest).all Char.isDigit
  | _ => false

/-- The base that a text says its digits have, and the digits. -/
def splitBase : List Char → Nat × List Char
  | '0' :: 'x' :: digits => (16, digits)
  | '0' :: 'o' :: digits => (8, digits)
  | '0' :: 'b' :: digits => (2, digits)
  | digits => (10, digits)

/-- An integer of any size. -/
def integer? (text : List Char) : Option Int := do
  let (negative, unsigned) := splitSign text
  let (base, digits) := splitBase unsigned
  if base = 10 && hasLeadingZero text then none
  else
    let value ← natural? base digits
    return if negative then -value else value

/-! ## Fractions -/

/-- A power of ten after `e` or `E`, zero if there is none. -/
def exponent? : List Char → Option Int
  | [] => some 0
  | c :: rest =>
    if c == 'e' || c == 'E' then do
      let (negative, digits) := splitSign rest
      let value ← natural? 10 digits
      return if negative then -value else value
    else none

/-- A decimal with or without a point and a power of ten. -/
def decimal? (negative : Bool) (text : List Char) : Option Binary64 := do
  let whole := text.takeWhile Char.isDigit
  let (fraction, rest) :=
    match text.dropWhile Char.isDigit with
    | '.' :: rest => (rest.takeWhile Char.isDigit, rest.dropWhile Char.isDigit)
    | rest => ([], rest)
  let digits ← natural? 10 (whole ++ fraction)
  let exponent ← exponent? rest
  return .ofDecimal negative digits (exponent - fraction.length)

/-- A number with a fraction. A decimal too great for a double is none. -/
def float? (text : List Char) : Option Binary64 :=
  let (negative, unsigned) := splitSign text
  if [".inf", ".Inf", ".INF"].contains (String.ofList unsigned) then some (.infinity negative)
  else if [".nan", ".NaN", ".NAN"].contains (String.ofList text) then some .nan
  else
    match decimal? negative unsigned with
    | some (.infinity _) => none
    | number => number

/-! ## Scalars -/

/-- The integers that a parameter may be. -/
def inRange (value : Int) : Bool := -(Nat.pow 2 63 : Nat) ≤ value && value < (Nat.pow 2 64 : Nat)

/-- The integers that are noticed as such, though a parameter may not be all of them. -/
def inWideRange (value : Int) : Bool := -(Nat.pow 2 127 : Nat) ≤ value && value < (Nat.pow 2 128 : Nat)

/-- What a scalar says that is marked as an integer: nothing if it is none or too great. -/
def integerValue? (text : String) : Option Value := do
  let value ← integer? text.toList
  if inRange value then return .int value else none

/-- What a scalar means that is no integer: a fraction, or else its text. -/
def fractionOrText (text : String) : Value :=
  if hasLeadingZero text.toList then .string text
  else
    match float? text.toList with
    | some value => .float value
    | none => .string text

/-- What a scalar without quotes and without a tag means; nothing if it is too great a number. -/
def plainValue? (text : String) : Option Value :=
  if text.isEmpty || isNull text then some .null
  else
    match bool? text, integer? text.toList with
    | some value, _ => some (.bool value)
    | none, none => some (fractionOrText text)
    | none, some value =>
      if inRange value then some (.int value)
      else if inWideRange value then none
      else some (fractionOrText text)

end BuildGraph.Yaml
