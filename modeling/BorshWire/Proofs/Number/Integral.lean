import BorshWire.Proofs.Number.Grammar
import BorshWire.Proofs.Number.Overflow

/-!
# Doubles of integers

`Numeral.ofInt_toInt`: a numeral of digits alone has the same double on both ways, through its integer
and at once, unless it is a zero with a minus sign. The double of a numeral of very many digits is
infinite without a look at them; `roundRatio_eq_infinity` says that rounding comes to the same.
-/

namespace BorshWire

namespace BinaryFormat

/-- A ratio that reaches the power of two after the greatest exponent is rounded to infinity. -/
theorem roundRatio_eq_infinity {f : BinaryFormat} (hf : 1 < f.exponentBits) {num den : Nat}
    (hden : 0 < den) (h : den * twoPow (twoPow (f.exponentBits - 1)) ≤ num) :
    f.roundRatio num den = f.infinity := by
  have hhalf : twoPow f.exponentBits = twoPow (f.exponentBits - 1) * 2 := by
    rw [← Nat.sub_add_cancel (Nat.lt_of_succ_lt hf), twoPow_add]
    rfl
  have htwo : twoPow 1 ≤ twoPow (f.exponentBits - 1) := twoPow_le (Nat.le_sub_one_of_lt hf)
  have hone : twoPow 1 = 2 := rfl
  rw [roundRatio_eq_infinity_iff hf hden]
  calc den * f.overflow
      ≤ den * (twoPow (f.fractionBits + 2) * twoPow f.topPlaces) :=
        Nat.mul_le_mul_left _ f.overflow_le
    _ = den * twoPow (twoPow (f.exponentBits - 1) + f.lowest + 1) := by
        rw [← twoPow_add]
        unfold lowest topPlaces
        congr 2
        omega
    _ = 2 * (den * twoPow (twoPow (f.exponentBits - 1)) * twoPow f.lowest) := by
        rw [twoPow_add, twoPow_add, hone, ← Nat.mul_assoc, ← Nat.mul_assoc, Nat.mul_comm 2]
    _ ≤ 2 * (num * twoPow f.lowest) := Nat.mul_le_mul_left _ (Nat.mul_le_mul_right _ h)

end BinaryFormat

namespace Numeral

theorem twoPow_le_tenPow (n : Nat) : twoPow (3 * n) ≤ tenPow n := by
  calc twoPow (3 * n) = (2 ^ 3) ^ n := Nat.pow_mul 2 3 n
    _ ≤ tenPow n := Nat.pow_le_pow_left (by decide) n

theorem tenPow_le_of_lt_length {m k : Nat} (hk : 0 < k) (h : k < (Nat.toDigits 10 m).length) :
    tenPow k ≤ m := by
  by_contra hsmall
  have hlength := (Nat.length_toDigits_le_iff (by decide) hk).mpr (Nat.lt_of_not_le hsmall)
  exact absurd h (Nat.not_lt.mpr hlength)

/-- A number of more than 400 digits is rounded to infinity. -/
theorem roundRatio_of_vast {m : Nat} (h : tenPow 400 ≤ m) :
    BinaryFormat.double.roundRatio m 1 = BinaryFormat.double.infinity := by
  refine BinaryFormat.roundRatio_eq_infinity (by decide) Nat.one_pos ?_
  have hexponent : twoPow (BinaryFormat.double.exponentBits - 1) ≤ 3 * 400 := by decide
  rw [Nat.one_mul]
  calc twoPow (twoPow (BinaryFormat.double.exponentBits - 1)) ≤ twoPow (3 * 400) :=
        twoPow_le hexponent
    _ ≤ tenPow 400 := twoPow_le_tenPow 400
    _ ≤ m := h

theorem isFinite_ofInt_of_vast {n : Int} (h : tenPow 400 ≤ n.natAbs) :
    (Double.ofInt n).isFinite = false := by
  rw [Double.ofInt, Double.ofRatio, roundRatio_of_vast h]
  exact Double.isFinite_infinite _

/-- The double nearest to an integer does not depend on the number of its digits. -/
theorem nearest_eq_ofRatio (negative : Bool) (m : Nat) :
    nearest negative m 0 = Double.ofRatio negative m 1 := by
  have hone : tenPow 0 = 1 := rfl
  unfold nearest
  dsimp only
  rw [Int.add_zero, Int.toNat_zero, Int.neg_zero, Int.toNat_zero, hone, Nat.mul_one]
  split
  · rename_i hzero
    rw [hzero]
    rfl
  · split
    · rename_i hlong
      rw [Double.ofRatio, roundRatio_of_vast (tenPow_le_of_lt_length (by decide) (by omega))]
      rfl
    · exact if_neg (by omega)

theorem scale_of_isInteger {n : Numeral} (h : n.isInteger = true) : n.scale = 0 := by
  obtain ⟨negative, whole, fraction, exponent⟩ := n
  obtain ⟨hfraction, hexponent⟩ := (Bool.and_eq_true _ _).mp h
  obtain rfl := Option.isNone_iff_eq_none.mp hfraction
  obtain rfl := Option.isNone_iff_eq_none.mp hexponent
  rfl

theorem toInt_eq_of_isInteger {n : Numeral} (h : n.isInteger = true) :
    n.toInt = if n.negative then -(n.coefficient : Int) else n.coefficient := by
  have hfraction := Option.isNone_iff_eq_none.mp ((Bool.and_eq_true _ _).mp h).1
  rw [coefficient, hfraction, Option.getD_none, List.append_nil]
  rfl

theorem toDouble_eq_of_isInteger {n : Numeral} (h : n.isInteger = true) :
    n.toDouble = Double.ofRatio n.negative n.coefficient 1 := by
  rw [toDouble, scale_of_isInteger h, nearest_eq_ofRatio]

/-- The double of an integer is the double of its numeral, unless that is a zero with a minus sign. -/
theorem ofInt_toInt {n : Numeral} (h : n.isInteger = true)
    (hsign : n.coefficient = 0 → n.negative = false) : Double.ofInt n.toInt = n.toDouble := by
  rw [toDouble_eq_of_isInteger h, toInt_eq_of_isInteger h, Double.ofInt]
  cases hnegative : n.negative with
  | false =>
    rw [if_neg Bool.false_ne_true, Int.natAbs_natCast, decide_eq_false (by omega)]
  | true =>
    have hpos : n.coefficient ≠ 0 := by
      intro hzero
      rw [hsign hzero] at hnegative
      cases hnegative
    rw [if_pos rfl, Int.natAbs_neg, Int.natAbs_natCast, decide_eq_true (by omega)]

/-- The integer of any zero is without a sign. -/
theorem ofInt_toInt_of_zero {n : Numeral} (h : n.isInteger = true) (hzero : n.coefficient = 0) :
    Double.ofInt n.toInt = Double.ofMagnitude false 0 ∧
      n.toDouble = Double.ofMagnitude n.negative 0 := by
  rw [toDouble_eq_of_isInteger h, toInt_eq_of_isInteger h, hzero]
  refine ⟨?_, rfl⟩
  cases n.negative <;> rfl

end Numeral

end BorshWire
