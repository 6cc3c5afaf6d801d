import BorshWire.Number.Double
import BorshWire.Text.Blank

/-!
# Numerals

Number text inside values: an optional sign, digits with an optional fraction (or a fraction
alone), and an optional exponent. A numeral denotes an exact ratio; one of digits alone denotes
an integer.
-/

namespace BorshWire

/-- The longest run of digits that is converted to an integer. -/
def maxIntegerDigits : Nat := 4300

/-- A numeral by its parts; without a point there is no `fraction`. -/
structure Numeral where
  negative : Bool
  whole : Text
  fraction : Option Text
  exponent : Option Int

namespace Numeral

/-- A sign, and what follows it. -/
def takeSign : Text → Bool × Text
  | 0x2D :: rest => (true, rest)
  | 0x2B :: rest => (false, rest)
  | t => (false, t)

/-- The digits at the start, and what follows them. -/
def takeDigits (t : Text) : Text × Text := t.span CodePoint.isDigit

/-- What is left of a numeral after its digits: nothing, or an exponent. -/
def readExponent? : Text → Option (Option Int)
  | [] => some none
  | c :: rest =>
    if c = 0x65 ∨ c = 0x45 then
      let (negative, digits) := takeSign rest
      if digits.isEmpty || !digits.all CodePoint.isDigit then none
      else
        let n : Int := Text.toNat digits
        some (some (if negative then -n else n))
    else none

/-- Reads a whole text as a numeral. -/
def read? (t : Text) : Option Numeral :=
  let (negative, body) := takeSign t
  let (whole, rest) := takeDigits body
  match rest with
  | 0x2E :: rest =>
    let (fraction, rest) := takeDigits rest
    if whole.isEmpty && fraction.isEmpty then none
    else (readExponent? rest).map fun e => ⟨negative, whole, some fraction, e⟩
  | _ =>
    if whole.isEmpty then none
    else (readExponent? rest).map fun e => ⟨negative, whole, none, e⟩

/-- Written with digits and a sign alone. -/
def isInteger (n : Numeral) : Bool := n.fraction.isNone && n.exponent.isNone

/-- The digits of both parts as one number. -/
def coefficient (n : Numeral) : Nat := Text.toNat (n.whole ++ n.fraction.getD [])

/-- The power of ten of the last digit. -/
def scale (n : Numeral) : Int := n.exponent.getD 0 - (n.fraction.getD []).length

/-- The integer that a numeral of digits alone denotes. -/
def toInt (n : Numeral) : Int :=
  let m : Int := Text.toNat n.whole
  if n.negative then -m else m

/-- The double nearest to `coefficient * 10 ^ scale`. A power far outside the range of doubles
is not computed. -/
def nearest (negative : Bool) (coefficient : Nat) (scale : Int) : Double :=
  let size : Int := (Nat.toDigits 10 coefficient).length + scale
  if coefficient = 0 then Double.ofMagnitude negative 0
  else if 400 < size then Double.infinite negative
  else if size < -400 then Double.ofMagnitude negative 0
  else Double.ofRatio negative (coefficient * tenPow scale.toNat) (tenPow (-scale).toNat)

/-- The double nearest to what the numeral denotes. -/
def toDouble (n : Numeral) : Double := nearest n.negative n.coefficient n.scale

end Numeral

end BorshWire
