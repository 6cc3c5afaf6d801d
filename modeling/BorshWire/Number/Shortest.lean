import BorshWire.Number.Double
import BorshWire.Text.Basic

/-!
# The shortest decimal of a double

A finite double is written with the fewest digits that round back to it and, among those, with
the ones nearest to its value. The search is exact: a double is the midpoint of the interval of
numbers that round to it, and for each count of digits the two neighbours on that decimal grid
are tested against the ends, which belong to the interval when the significand is even.
-/

namespace BorshWire

/-- The number `coefficient * 10 ^ exponent`. -/
structure Decimal where
  coefficient : Nat
  exponent : Int

namespace Decimal

/-- The number of decimal digits. -/
def width (n : Nat) : Nat := (Nat.toDigits 10 n).length

/-- The place of the decimal point, counted from before the first digit, of a positive ratio. -/
def pointOf (num den : Nat) : Int :=
  if den ≤ num then width (num / den) else 1 - (width (den / num) : Int)

/-- The numbers that round to a double, over a common denominator. -/
structure Interval where
  low : Nat
  value : Nat
  high : Nat
  den : Nat
  /-- The ends belong to the interval. -/
  closed : Bool

/-- The interval of a positive double with this significand. It reaches half a step to either
side, and half of the shorter step below a power of two. -/
def Interval.of (significand places : Nat) : Interval where
  low := (4 * significand
    - if significand = twoPow 52 ∧ 0 < places then 1 else 2) * twoPow places
  value := 4 * significand * twoPow places
  high := (4 * significand + 2) * twoPow places
  den := 4 * twoPow BinaryFormat.double.lowest
  closed := significand % 2 = 0

/-- The coefficient on the grid `10 ^ exponent` that lies in the interval nearest to its value,
if one of the two neighbours of the value does. -/
def Interval.onGrid? (i : Interval) (exponent : Int) : Option Nat :=
  let up := tenPow (-exponent).toNat
  let den := i.den * tenPow exponent.toNat
  let c := i.value * up / den
  let r := i.value * up % den
  let below : Bool := decide (i.low * up < c * den) || i.closed && i.low * up == c * den
  let above : Bool :=
    decide ((c + 1) * den < i.high * up) || i.closed && (c + 1) * den == i.high * up
  let nearer : Nat := if 2 * r < den ∨ 2 * r = den ∧ c % 2 = 0 then c else c + 1
  if below && above then some nearer
  else if below then some c
  else if above then some (c + 1)
  else none

/-- The coefficient without its trailing zeros, at most `fuel` of them. -/
def trimZeros : Nat → Decimal → Decimal
  | 0, d => d
  | fuel + 1, d =>
    if d.coefficient ≠ 0 ∧ d.coefficient % 10 = 0 then
      trimZeros fuel ⟨d.coefficient / 10, d.exponent + 1⟩
    else d

/-- The shortest decimal of a positive double; seventeen digits always reach one. -/
def shortest (significand places : Nat) : Decimal :=
  let i := Interval.of significand places
  let point := pointOf i.value i.den
  let found := (List.range 17).findSome? fun k =>
    let exponent := point - (k + 1 : Nat)
    (i.onGrid? exponent).map fun c => Decimal.mk c exponent
  trimZeros 18 (found.getD ⟨0, 0⟩)

end Decimal

/-- How a decimal is spelled: which powers of ten are written with a plain decimal point, and the
least number of digits of an exponent. -/
structure DecimalStyle where
  leastPlain : Int
  greatestPlain : Int
  exponentWidth : Nat

/-- Numbers from `0.0001` to below ten to the sixteenth are written out. -/
def DecimalStyle.plain : DecimalStyle := ⟨-4, 15, 2⟩

namespace Decimal

/-- A plain number always has a digit on each side of the point. -/
def spell (style : DecimalStyle) (d : Decimal) : Text :=
  let digits := Text.ofNat d.coefficient
  let point : Int := digits.length + d.exponent
  let zeros (n : Int) : Text := List.replicate n.toNat 0x30
  if style.leastPlain ≤ point - 1 ∧ point - 1 ≤ style.greatestPlain then
    if point ≤ 0 then Text.ofString "0." ++ zeros (-point) ++ digits
    else if 0 ≤ d.exponent then digits ++ zeros d.exponent ++ Text.ofString ".0"
    else digits.take point.toNat ++ 0x2E :: digits.drop point.toNat
  else
    let mantissa := digits.take 1 ++ if digits.length = 1 then [] else 0x2E :: digits.drop 1
    let power := Text.ofNat (point - 1).natAbs
    let sign : Text := if point - 1 < 0 then [0x2D] else [0x2B]
    mantissa ++ 0x65 :: sign ++ zeros ((style.exponentWidth : Int) - power.length) ++ power

end Decimal

namespace Double

/-- The text of a double. -/
def toText (x : Double) : Text :=
  match x.reading with
  | .nan => "nan"
  | .infinite negative => if negative then "-inf" else "inf"
  | .finite negative significand places =>
    let sign : Text := if negative then [0x2D] else []
    sign ++ if significand = 0 then Text.ofString "0.0"
      else (Decimal.shortest significand places).spell DecimalStyle.plain

end Double

end BorshWire
