import BorshWire.Number.Binary

/-!
# Double precision numbers

A double is its 64-bit word. It is read as a sign and an exact magnitude, made from integers,
ratios and single precision words, and narrowed to a single precision word.
-/

namespace BorshWire

/-- The word of a single without its sign. -/
def singleMagnitude (w : BitVec 32) : Nat := w.toNat % twoPow 31

/-- Neither infinite nor without a value. -/
def isFiniteSingle (w : BitVec 32) : Bool :=
  decide (singleMagnitude w < BinaryFormat.single.infinity)

/-- A double precision number, by its word. -/
structure Double where
  bits : BitVec 64
  deriving DecidableEq

namespace Double

/-- What a word stands for; a finite magnitude is `significand * 2 ^ (places - lowest)`, with
the `lowest` of double precision. -/
inductive Reading where
  | nan
  | infinite (negative : Bool)
  | finite (negative : Bool) (significand places : Nat)

/-- The word without its sign. -/
def magnitude (x : Double) : Nat := x.bits.toNat % twoPow 63

/-- The sign bit is set. -/
def isNegative (x : Double) : Bool := decide (twoPow 63 ≤ x.bits.toNat)

/-- The double of a sign and a magnitude word. -/
def ofMagnitude (negative : Bool) (word : Nat) : Double :=
  ⟨BitVec.ofNat 64 (word + if negative then twoPow 63 else 0)⟩

/-- The number that the word stands for. -/
def reading (x : Double) : Reading :=
  if BinaryFormat.double.infinity < x.magnitude then .nan
  else if x.magnitude = BinaryFormat.double.infinity then .infinite x.isNegative
  else
    let parts := BinaryFormat.double.split x.magnitude
    .finite x.isNegative parts.1 parts.2

/-- Neither infinite nor without a value. -/
def isFinite (x : Double) : Bool := decide (x.magnitude < BinaryFormat.double.infinity)

/-- The word of no number. -/
def nan : Double := ofMagnitude false (BinaryFormat.double.infinity + twoPow 51)

/-- Infinity of either sign. -/
def infinite (negative : Bool) : Double := ofMagnitude negative BinaryFormat.double.infinity

/-- The double nearest to a ratio of the given sign. -/
def ofRatio (negative : Bool) (num den : Nat) : Double :=
  ofMagnitude negative (BinaryFormat.double.roundRatio num den)

/-- The double nearest to an integer. -/
def ofInt (n : Int) : Double := ofRatio (decide (n < 0)) n.natAbs 1

/-- The integer that the double stands for, if it stands for one. -/
def toInt? (x : Double) : Option Int :=
  match x.reading with
  | .finite negative significand places =>
    let lowest := BinaryFormat.double.lowest
    let scaled := significand * twoPow places
    if scaled % twoPow lowest = 0 then
      let n : Nat := scaled / twoPow lowest
      some (if negative then -(n : Int) else n)
    else none
  | _ => none

/-- The double of the same value as a finite single. -/
def ofSingle (w : BitVec 32) : Double :=
  let parts := BinaryFormat.single.split (singleMagnitude w)
  ofRatio (decide (twoPow 31 ≤ w.toNat)) (parts.1 * twoPow parts.2)
    (twoPow BinaryFormat.single.lowest)

/-- A single as a double; one without a value keeps none. -/
def widen (w : BitVec 32) : Double :=
  if isFiniteSingle w then ofSingle w
  else if singleMagnitude w = BinaryFormat.single.infinity then infinite (decide (twoPow 31 ≤ w.toNat))
  else nan

/-- The single precision word nearest to a double; what is too large becomes infinite. A double
without a value keeps none. -/
def toSingle (x : Double) : BitVec 32 :=
  let sign : Nat := if x.isNegative then twoPow 31 else 0
  match x.reading with
  | .nan => BitVec.ofNat 32 (BinaryFormat.single.infinity + twoPow 22)
  | .infinite _ => BitVec.ofNat 32 (BinaryFormat.single.infinity + sign)
  | .finite _ significand places =>
    BitVec.ofNat 32 (sign + BinaryFormat.single.roundRatio (significand * twoPow places)
      (twoPow BinaryFormat.double.lowest))

/-- Equality of numbers: both zeros are equal, and what has no value equals nothing. -/
def sameNumber (x y : Double) : Bool :=
  match x.reading, y.reading with
  | .nan, _ => false
  | _, .nan => false
  | _, _ => decide (x.bits = y.bits ∨ x.magnitude = 0 ∧ y.magnitude = 0)

end Double

end BorshWire
