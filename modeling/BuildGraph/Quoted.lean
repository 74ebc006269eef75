import BuildGraph.Quoted.Hidden

/-!
# Quoted text in messages

A text in double quotes, in which every character can be seen: quotes and backslashes are escaped,
the usual control characters are written by their letters, and all that is blank, invisible or
attaches to the character before it is written by its code point.
-/

namespace BuildGraph.Quoted

/-- Whether a character lies in one of the ranges. -/
def inRanges (ranges : List (Nat × Nat)) (c : Char) : Bool :=
  ranges.any fun (first, last) => first ≤ c.toNat && c.toNat ≤ last

/-- One character as it is written between the quotes. -/
def encodeChar (c : Char) : List Char :=
  if c == '\x00' then ['\\', '0']
  else if c == '\t' then ['\\', 't']
  else if c == '\r' then ['\\', 'r']
  else if c == '\n' then ['\\', 'n']
  else if c == '"' || c == '\\' then ['\\', c]
  else if inRanges invisible c || inRanges attaching c then
    ['\\', 'u', '\x7b'] ++ Nat.toDigits 16 c.toNat ++ ['\x7d']
  else [c]

/-- A text in quotes. -/
def encode (s : String) : String :=
  String.ofList ('"' :: s.toList.flatMap encodeChar ++ ['"'])

end BuildGraph.Quoted
