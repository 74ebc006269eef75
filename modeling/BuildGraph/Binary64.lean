/-!
# Double precision numbers

A double is a sign, a significand below 2^53 and a power of two, kept as exact integers. A decimal is
read as the nearest double, a tie to the even significand; a double is written with the fewest digits
that read back as it, and of those the nearest to it, a tie away from zero.
-/

namespace BuildGraph

/-- A double precision number. The significand of a finite one is below 2^53, and at least 2^52
unless the exponent is -1074. -/
inductive Binary64 where
  | nan
  | infinity (negative : Bool)
  | finite (negative : Bool) (significand : Nat) (exponent : Int)
deriving DecidableEq, Repr

namespace Binary64

/-- Equality of numbers: zeros are equal whatever their sign, and here NaN equals itself. -/
def same : Binary64 → Binary64 → Bool
  | .finite _ 0 _, .finite _ 0 _ => true
  | x, y => x = y

/-- The number of decimal digits of a positive number. -/
def digitCount (x : Nat) : Nat := (Nat.toDigits 10 x).length

/-! ## Reading -/

/-- The integer nearest to a quotient, a tie to the even one. -/
def roundToEven (num den : Nat) : Nat :=
  let quotient := num / den
  let twice := 2 * (num % den)
  if twice < den then quotient
  else if twice = den then quotient + quotient % 2
  else quotient + 1

/-- The double nearest to a positive quotient. -/
def ofQuotient (negative : Bool) (num den : Nat) : Binary64 :=
  let scale (exponent : Int) : Nat × Nat :=
    (num * Nat.pow 2 (-exponent).toNat, den * Nat.pow 2 exponent.toNat)
  let low := max ((num.log2 : Int) - den.log2 - 53) (-1074)
  let (n, d) := scale low
  let exponent := if n / d ≥ Nat.pow 2 53 then low + 1 else low
  let (n, d) := scale exponent
  let rounded := roundToEven n d
  let (significand, exponent) :=
    if rounded = Nat.pow 2 53 then (Nat.pow 2 52, exponent + 1) else (rounded, exponent)
  if exponent > 971 then .infinity negative else .finite negative significand exponent

/-- The double nearest to `digits * 10 ^ exponent`. Powers far outside the range of doubles are told
apart by the number of digits alone. -/
def ofDecimal (negative : Bool) (digits : Nat) (exponent : Int) : Binary64 :=
  if digits = 0 then .finite negative 0 (-1074)
  else
    let magnitude := exponent + digitCount digits
    if magnitude > 310 then .infinity negative
    else if magnitude < -330 then .finite negative 0 (-1074)
    else ofQuotient negative (digits * Nat.pow 10 exponent.toNat)
      (Nat.pow 10 (-exponent).toNat)

/-! ## Writing -/

/-- The greatest `e` with `10 ^ e ≤ num / den`. -/
def decimalExponent (num den : Nat) : Int :=
  if num ≥ den then (digitCount (num / den) : Int) - 1
  else
    let guess := digitCount (den / num) - 1
    if num * Nat.pow 10 guess ≥ den then -(guess : Int) else -(guess : Int) - 1

/-- A positive finite double as a decimal `digits * 10 ^ exponent` that reads back as it: the first
of the grids with 1, 2, … digits on which a neighbour of the number does, starting from `digits`
digits and trying `fuel` grids. The bounds of the numbers that read back are in quarters of the last
place, and count themselves if the significand is even. -/
def shortestFrom (significand : Nat) (exponent : Int) : Nat → Nat → Nat × Int
  | 0, _ => (significand, 0)
  | fuel + 1, digits =>
    let up := Nat.pow 2 (exponent - 2).toNat
    let den := Nat.pow 2 (2 - exponent).toNat
    let value := 4 * significand * up
    let below := if significand = Nat.pow 2 52 ∧ exponent > -1074 then 1 else 2
    let least := (4 * significand - below) * up
    let greatest := (4 * significand + 2) * up
    let place := decimalExponent value den - digits + 1
    let unit := Nat.pow 10 place.toNat * den
    let scale := Nat.pow 10 (-place).toNat
    let floor := value * scale / unit
    let reads (d : Nat) : Bool :=
      if significand % 2 = 0 then least * scale ≤ d * unit && d * unit ≤ greatest * scale
      else least * scale < d * unit && d * unit < greatest * scale
    let nearer := if 2 * (value * scale % unit) ≥ unit then floor + 1 else floor
    if reads nearer then (nearer, place)
    else if reads floor then (floor, place)
    else if reads (floor + 1) then (floor + 1, place)
    else shortestFrom significand exponent fuel (digits + 1)

/-- The shortest decimal that reads back as a positive finite double. -/
def shortest (significand : Nat) (exponent : Int) : Nat × Int :=
  shortestFrom significand exponent 17 1

/-- A decimal without an exponent, with at least one digit on either side of the point. -/
def positional (digits : Nat) (exponent : Int) : String :=
  let text := Nat.toDigits 10 digits
  if exponent ≥ 0 then String.ofList (text ++ List.replicate exponent.toNat '0' ++ ['.', '0'])
  else
    let places := (-exponent).toNat
    let padded := List.replicate (places + 1 - text.length) '0' ++ text
    let point := padded.length - places
    let fraction := ((padded.drop point).reverse.dropWhile (· == '0')).reverse
    String.ofList (padded.take point ++ '.' :: (if fraction.isEmpty then ['0'] else fraction))

/-- The text of a double, without an exponent and always with a fraction. -/
def text : Binary64 → String
  | .nan => "NaN"
  | .infinity negative => if negative then "-inf" else "inf"
  | .finite negative significand exponent =>
    let magnitude :=
      if significand = 0 then "0.0"
      else
        let (digits, place) := shortest significand exponent
        positional digits place
    if negative then "-" ++ magnitude else magnitude

end Binary64

end BuildGraph
