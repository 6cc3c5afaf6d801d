import BorshWire.Proofs.Number.NearestDouble
import BorshWire.Proofs.Text.Decimal

/-!
# What numerals denote

A numeral denotes a rational number (`Numeral.value`). If it has neither fraction nor exponent, this
is its integer (`cast_toInt`); and its double is the one nearest to the number, unless it is infinite
(`isNearest_toDouble`). Where powers of ten are too far away to be computed the double is zero, which
is nearest to everything below half of the least double.
-/

namespace BorshWire

open BinaryFormat (double)

namespace Numeral

/-! ## Values -/

/-- The number that a numeral denotes. -/
def value (n : Numeral) : ℚ := Double.signed n.negative (n.coefficient * 10 ^ n.scale)

/-- A numeral of digits alone denotes its integer. -/
theorem cast_toInt {n : Numeral} (h : n.isInteger = true) : (n.toInt : ℚ) = n.value := by
  obtain ⟨negative, whole, fraction, exponent⟩ := n
  obtain ⟨hfraction, hexponent⟩ := (Bool.and_eq_true _ _).mp h
  obtain rfl := Option.isNone_iff_eq_none.mp hfraction
  obtain rfl := Option.isNone_iff_eq_none.mp hexponent
  have hscale : scale ⟨negative, whole, none, none⟩ = 0 := rfl
  have hcoefficient : coefficient ⟨negative, whole, none, none⟩ = Text.toNat whole := by
    simp [coefficient]
  rw [value, hscale, hcoefficient, zpow_zero, mul_one]
  cases negative <;> simp [toInt, Double.signed]

theorem cast_tenPow (n : Nat) : ((tenPow n : Nat) : ℚ) = 10 ^ n := Nat.cast_pow 10 n

theorem ten_zpow_eq (scale : Int) :
    (10 : ℚ) ^ scale = tenPow scale.toNat / tenPow (-scale).toNat := by
  rw [cast_tenPow, cast_tenPow, ← zpow_natCast, ← zpow_natCast, ← zpow_sub₀ (by norm_num),
    Int.toNat_sub_toNat_neg]

theorem two_pow_lowest_le : (2 : ℚ) ^ double.lowest * 2 ≤ 10 ^ 401 := by
  have hlowest : double.lowest + 1 ≤ 3 * 401 := by decide
  calc (2 : ℚ) ^ double.lowest * 2 = 2 ^ (double.lowest + 1) := (pow_succ _ _).symm
    _ ≤ 2 ^ (3 * 401) := pow_le_pow_right₀ (by norm_num) hlowest
    _ = (2 ^ 3) ^ 401 := pow_mul _ _ _
    _ ≤ 10 ^ 401 := pow_le_pow_left₀ (by norm_num) (by norm_num) _

/-- A number of few digits far behind the point is smaller than half of the least double. -/
theorem lt_half_unit {coefficient : Nat} {scale : Int}
    (h : (Nat.toDigits 10 coefficient).length + scale < -400) :
    (coefficient * 10 ^ scale : ℚ) < 1 / 2 ^ double.lowest / 2 := by
  have hten : (0 : ℚ) < 10 ^ scale := zpow_pos (by norm_num) _
  have hdigits : coefficient < 10 ^ (Nat.toDigits 10 coefficient).length :=
    (Nat.length_toDigits_le_iff (by decide) Nat.length_toDigits_pos).mp (Nat.le_refl _)
  have hdigits' : (coefficient : ℚ) < 10 ^ (Nat.toDigits 10 coefficient).length := by
    exact_mod_cast hdigits
  calc (coefficient * 10 ^ scale : ℚ)
      < 10 ^ (Nat.toDigits 10 coefficient).length * 10 ^ scale := mul_lt_mul_of_pos_right hdigits' hten
    _ = 10 ^ ((Nat.toDigits 10 coefficient).length + scale) := by
        rw [zpow_add₀ (by norm_num), zpow_natCast]
    _ ≤ 10 ^ (-(401 : Nat) : Int) := zpow_le_zpow_right₀ (by norm_num) (by omega)
    _ = 1 / 10 ^ 401 := by rw [zpow_neg, zpow_natCast, one_div]
    _ ≤ 1 / (2 ^ double.lowest * 2) := one_div_le_one_div_of_le (by positivity) two_pow_lowest_le
    _ = 1 / 2 ^ double.lowest / 2 := (div_div _ _ _).symm

/-- The double of a numeral is the nearest one, if it is finite. -/
theorem isNearest_toDouble {n : Numeral} (h : n.toDouble.isFinite = true) :
    n.toDouble.IsNearest n.value := by
  have hten : (0 : ℚ) < 10 ^ n.scale := zpow_pos (by norm_num) _
  have hzero : (Double.ofMagnitude n.negative 0).value = 0 := by
    rw [Double.value_ofMagnitude (by decide), Double.size_zero]
    cases n.negative
    · rfl
    · exact neg_zero
  unfold toDouble nearest at h ⊢
  dsimp only at h ⊢
  split at h
  · rename_i hcoefficient
    rw [if_pos hcoefficient]
    refine Double.isNearest_zero ?_ h hzero
    rw [value, hcoefficient, Nat.cast_zero, zero_mul, Double.abs_signed, abs_zero]
    positivity
  · rename_i hcoefficient
    rw [if_neg hcoefficient]
    split at h
    · rw [Double.isFinite_infinite] at h
      cases h
    · rename_i hlarge
      rw [if_neg hlarge]
      split at h
      · rename_i hsmall
        rw [if_pos hsmall]
        refine Double.isNearest_zero ?_ h hzero
        rw [value, Double.abs_signed, abs_of_nonneg (by positivity)]
        exact lt_half_unit hsmall
      · rename_i hsmall
        rw [if_neg hsmall]
        have hnearest := Double.isNearest_ofRatio (tenPow_pos _) h
        rwa [Nat.cast_mul, mul_div_assoc, ← ten_zpow_eq] at hnearest

end Numeral

end BorshWire
