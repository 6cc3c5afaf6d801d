import BorshWire.Text.Blank

/-!
# Decimal digits of all scripts

Integers given to the command line may be written in the digits of any script, in groups between
single underscores.
-/

namespace BorshWire

namespace CodePoint

/-- The zeros of the scripts of Unicode 14; the other nine digits follow each of them. -/
def zeros : List Nat :=
  [0x30, 0x660, 0x6F0, 0x7C0, 0x966, 0x9E6, 0xA66, 0xAE6, 0xB66, 0xBE6, 0xC66, 0xCE6, 0xD66,
   0xDE6, 0xE50, 0xED0, 0xF20, 0x1040, 0x1090, 0x17E0, 0x1810, 0x1946, 0x19D0, 0x1A80, 0x1A90,
   0x1B50, 0x1BB0, 0x1C40, 0x1C50, 0xA620, 0xA8D0, 0xA900, 0xA9D0, 0xA9F0, 0xAA50, 0xABF0,
   0xFF10, 0x104A0, 0x10D30, 0x11066, 0x110F0, 0x11136, 0x111D0, 0x112F0, 0x11450, 0x114D0,
   0x11650, 0x116C0, 0x11730, 0x118E0, 0x11950, 0x11C50, 0x11D50, 0x11DA0, 0x16A60, 0x16AC0,
   0x16B50, 0x1D7CE, 0x1D7D8, 0x1D7E2, 0x1D7EC, 0x1D7F6, 0x1E140, 0x1E2F0, 0x1E950, 0x1FBF0]

/-- The number that a decimal digit of any script stands for. -/
def decimalValue? (c : CodePoint) : Option Nat :=
  (zeros.find? fun z => decide (z ≤ c.val ∧ c.val < z + 10)).map fun z => c.val - z

end CodePoint

namespace Text

/-- The numbers of the digits of an integer, where an underscore may stand between two of them. -/
def digitValues? : Text → Option (List Nat)
  | [] => none
  | [c] => c.decimalValue?.map fun n => [n]
  | c :: d :: rest => do
    let n ← c.decimalValue?
    let values ← if d = 0x5F then digitValues? rest else digitValues? (d :: rest)
    return n :: values

/-- Reads an integer of at most `maxDigits` digits, white space around it aside. -/
def toInt? (maxDigits : Nat) (t : Text) : Option Int :=
  let (negative, body) := match t.trim CodePoint.isWhiteSpace with
    | 0x2D :: rest => (true, rest)
    | 0x2B :: rest => (false, rest)
    | t => (false, t)
  (digitValues? body).bind fun values =>
    if maxDigits < values.length then none
    else
      let n : Int := (values.foldl (fun n d => 10 * n + d) 0 : Nat)
      some (if negative then -n else n)

end Text

end BorshWire
