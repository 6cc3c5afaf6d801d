import BorshWire.Number.Power
import BorshWire.Schema.Types

/-!
# Integer ranges

The integers that so many bits hold, unsigned or in two's complement, and their bytes with the
lowest first, which are read back as well. Only whole bytes are put out, so bits that are no
multiple of eight hold more integers than their bytes do; of the integer types of a schema all bits
are in whole bytes.
-/

namespace BorshWire

/-- The low bytes of a number, the lowest first. -/
def littleEndian : Nat → Nat → List UInt8
  | 0, _ => []
  | width + 1, n => UInt8.ofNat (n % 256) :: littleEndian width (n / 256)

@[simp] theorem length_littleEndian (width n : Nat) : (littleEndian width n).length = width := by
  induction width generalizing n with
  | zero => rfl
  | succ width ih => simp only [littleEndian, List.length_cons, ih]

/-- The number of bytes with the lowest first. -/
def ofLittleEndian : List UInt8 → Nat
  | [] => 0
  | b :: rest => b.toNat + 256 * ofLittleEndian rest

/-- The integers of so many bits, the signed ones in two's complement. -/
structure IntRange where
  signed : Bool
  bits : Nat

namespace IntRange

/-- The least integer; a signed range without any bit has -1 in it. -/
def least (r : IntRange) : Int := if r.signed then -(twoPow r.bits : Int) / 2 else 0

/-- The greatest integer. -/
def greatest (r : IntRange) : Int :=
  if r.signed then ((twoPow r.bits : Int) - 1) / 2 else twoPow r.bits - 1

/-- The integer is in the range. -/
def contains (r : IntRange) (n : Int) : Bool := decide (r.least ≤ n ∧ n ≤ r.greatest)

/-- The number of whole bytes. -/
def width (r : IntRange) : Nat := r.bits / 8

/-- What the whole bytes hold. -/
def whole (r : IntRange) : IntRange := ⟨r.signed, 8 * r.width⟩

/-- The bytes of an integer, a negative one in two's complement. -/
def bytes (r : IntRange) (n : Int) : List UInt8 :=
  littleEndian r.width (n % twoPow r.bits).toNat

@[simp] theorem length_bytes (r : IntRange) (n : Int) : (r.bytes n).length = r.width :=
  length_littleEndian _ _

end IntRange

namespace IntKind

/-- The range of an integer type. -/
def range (k : IntKind) : IntRange := ⟨k.signed, k.bits⟩

theorem width_range (k : IntKind) : k.range.width = k.width.bytes := by
  simp only [range, IntRange.width, bits]
  omega

/-- The integer of a type whose bytes these are. -/
def ofBytes (k : IntKind) (data : List UInt8) : Int :=
  let n := ofLittleEndian data
  if k.signed = true ∧ twoPow k.bits ≤ 2 * n then (n : Int) - twoPow k.bits else n

end IntKind

end BorshWire
