import BorshWire.Number.Power

/-!
# Binary floating point

The interchange formats of IEEE 754 over natural numbers: a word is taken apart into sign,
significand and exponent, and a ratio of naturals is rounded to the nearest word, ties going to
the even one. A magnitude word grows with the magnitude, so that a carry out of the significand
is a plain addition.
-/

namespace BorshWire

/-- A binary interchange format, by the widths of its two fields. -/
structure BinaryFormat where
  fractionBits : Nat
  exponentBits : Nat

namespace BinaryFormat

/-- Single precision. -/
def single : BinaryFormat := ⟨23, 8⟩

/-- Double precision. -/
def double : BinaryFormat := ⟨52, 11⟩

/-- The power of two that the last place of a subnormal number stands for is `-lowest`. -/
def lowest (f : BinaryFormat) : Nat := twoPow (f.exponentBits - 1) - 2 + f.fractionBits

/-- The magnitude word of infinity: all exponent bits set, no fraction. -/
def infinity (f : BinaryFormat) : Nat := (twoPow f.exponentBits - 1) * twoPow f.fractionBits

/-- The significand of a finite magnitude word and the number of places by which its last bit
stands above the last place of a subnormal number. -/
def split (f : BinaryFormat) (magnitude : Nat) : Nat × Nat :=
  let fraction := magnitude % twoPow f.fractionBits
  let exponent := magnitude / twoPow f.fractionBits
  if exponent = 0 then (fraction, 0) else (twoPow f.fractionBits + fraction, exponent - 1)

/-- The quotient rounded to the nearest natural number, a tie to the even one. -/
def roundQuotient (num den : Nat) : Nat :=
  let q := num / den
  let r := num % den
  if 2 * r > den ∨ 2 * r = den ∧ q % 2 = 1 then q + 1 else q

/-- The greatest `k` with `2 ^ k` at most `num / den`, for positive operands. -/
def floorLog (num den : Nat) : Int :=
  let k : Int := (Nat.log2 num : Int) - Nat.log2 den
  let reached : Bool :=
    if 0 ≤ k then decide (den * twoPow k.toNat ≤ num) else decide (den ≤ num * twoPow (-k).toNat)
  if reached then k else k - 1

/-- The magnitude word nearest to `num / den`, at most that of infinity. -/
def roundRatio (f : BinaryFormat) (num den : Nat) : Nat :=
  if num = 0 then 0
  else
    -- the number of places of the last bit above the last place of a subnormal number
    let places : Nat := (floorLog num den - f.fractionBits + f.lowest).toNat
    let word := places * twoPow f.fractionBits
      + roundQuotient (num * twoPow f.lowest) (den * twoPow places)
    min word f.infinity

theorem roundRatio_le_infinity (f : BinaryFormat) (num den : Nat) :
    f.roundRatio num den ≤ f.infinity := by
  unfold roundRatio
  split
  · exact Nat.zero_le _
  · exact Nat.min_le_right _ _

theorem roundQuotient_mul (n : Nat) {den : Nat} (h : 0 < den) :
    roundQuotient (n * den) den = n := by
  unfold roundQuotient
  rw [Nat.mul_mod_left, Nat.mul_div_cancel n h]
  exact if_neg (by omega)

end BinaryFormat

end BorshWire
