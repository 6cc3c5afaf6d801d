import BorshWire.Wire.Write

/-!
# Integers of a given width

A caller may give the width of an integer itself, as any value. Whether there is an integer at
all comes first; the width is looked at before the range, and whole bytes come last. A width that
an integer type of a schema has gives what that type gives.
-/

namespace BorshWire

namespace Write

/-- The first number of bits that no memory holds. -/
def maxBits : Nat := 8 * maxBytes

/-- The greatest exponent of a power of two whose size can still be computed. -/
def maxExponent : Nat := 69175290276410818320

/-- The exponent of a power of two that can be computed. -/
def exponent (n : Int) : Except WriteError Nat :=
  if n < 0 then .error .negativeWidth
  else if maxExponent < n then .error .vastWidth
  else if maxBits ≤ n then .error .noMemory
  else .ok n.toNat

/-- The number of bits that a width means. A signed integer has one bit for its sign, so that it
needs the power of two of one bit less. -/
def bitsOf (signed : Bool) (width : Int) : Except WriteError Nat :=
  if signed then (exponent (width - 1)).map (· + 1) else exponent width

/-- The number of bits that a value means as a width. -/
def widthBits (signed : Bool) (width : Value) : Except WriteError Nat :=
  match width with
  | .int n => bitsOf signed n
  | .bool b => bitsOf signed b.toNat
  | v => .error (.notWidth signed v)

/-- Writes an integer in the whole bytes of a width. -/
def sized (signed : Bool) (width v : Value) : Step :=
  let name := Text.concat [if signed then "i" else "u", width.plain]
  if !width.numbers.all Text.spells then Output.fail .unspelledWidth
  else match integral? v with
  | none => Output.fail (.outOfRange name v)
  | some n =>
    if !signed && n < 0 then Output.fail (.outOfRange name v)
    else do
      let bits ← Output.ofExcept (widthBits signed width)
      let r : IntRange := ⟨signed, bits⟩
      if !r.contains n then Output.fail (.outOfRange name v)
      else if r.whole.contains n then Output.emit (r.bytes n)
      else Output.fail .brokenByte

end Write

end BorshWire
