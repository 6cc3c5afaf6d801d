import BorshWire.Proofs.Number.NearestDouble
import Mathlib.Tactic.Ring

/-!
# Overflow

`roundRatio_eq_infinity_iff`: a ratio is rounded to infinity exactly from half a unit of the last
place below the power of two on that follows the greatest exponent. At that very place the tie goes
up, since the greatest significand is odd. A double that is narrowed to a single gets there at
`2 ^ 128 - 2 ^ 103` (`Double.singleMagnitude_toSingle_eq_infinity_iff`).
-/

namespace BorshWire

namespace BinaryFormat

variable {f : BinaryFormat}

/-- The number of places of the greatest finite word. -/
def topPlaces (f : BinaryFormat) : Nat := twoPow f.exponentBits - 3

/-- Twice the least magnitude that is rounded to infinity, in units of the last place of a subnormal
number. -/
def overflow (f : BinaryFormat) : Nat := (twoPow (f.fractionBits + 2) - 1) * twoPow f.topPlaces

theorem overflow_pos (f : BinaryFormat) : 0 < f.overflow := by
  have hfour : twoPow 2 ≤ twoPow (f.fractionBits + 2) := twoPow_le (Nat.le_add_left 2 _)
  have htwo : twoPow 2 = 4 := rfl
  exact Nat.mul_pos (by omega) (twoPow_pos _)

theorem overflow_le (f : BinaryFormat) :
    f.overflow ≤ twoPow (f.fractionBits + 2) * twoPow f.topPlaces :=
  Nat.mul_le_mul_right _ (Nat.sub_le _ _)

/-- A quotient is rounded to an even number at least from half below it on. -/
theorem double_le_roundQuotient_iff {num den half : Nat} (hden : 0 < den) (hhalf : 0 < half) :
    2 * half ≤ roundQuotient num den ↔ den * (4 * half - 1) ≤ 2 * num := by
  have hnum := Nat.div_add_mod num den
  have hrem := Nat.mod_lt num hden
  have hquotient : num / den + 2 ≤ 2 * half ∨ num / den + 1 = 2 * half ∨ 2 * half ≤ num / den := by
    omega
  unfold roundQuotient
  dsimp only
  rcases hquotient with hlow | heq | hhigh
  · have hmul : den * (2 * (num / den) + 2) ≤ den * (4 * half - 1) :=
      Nat.mul_le_mul_left den (by omega)
    rw [Nat.mul_add, Nat.mul_left_comm] at hmul
    split <;> omega
  · have hmul : den * (4 * half - 1) = 2 * (den * (num / den)) + den := by
      rw [show 4 * half - 1 = 2 * (num / den) + 1 by omega, Nat.mul_succ, Nat.mul_left_comm]
    split <;> omega
  · have hmul : den * (4 * half - 1) ≤ den * (2 * (num / den)) :=
      Nat.mul_le_mul_left den (by omega)
    rw [Nat.mul_left_comm] at hmul
    split <;> omega

section

variable (hf : 1 < f.exponentBits)

include hf

theorem infinity_eq : f.infinity = (f.topPlaces + 2) * twoPow f.fractionBits := by
  have hfour : twoPow 2 ≤ twoPow f.exponentBits := twoPow_le hf
  have htwo : twoPow 2 = 4 := rfl
  rw [infinity, topPlaces]
  congr 1
  omega

variable {num den : Nat} (hnum : 0 < num) (hden : 0 < den)

include hnum hden

/-- With fewer places than the greatest word both the result and the ratio are below. -/
theorem below_of_places_lt (h : f.places num den < f.topPlaces) :
    f.rounded num den < f.infinity ∧ 2 * (num * twoPow f.lowest) < den * f.overflow := by
  obtain ⟨hlt, -⟩ := f.places_spec hnum hden
  obtain ⟨hle, -⟩ := f.rounded_significand hnum hden
  have hpos := twoPow_pos f.fractionBits
  have hhalf : twoPow (f.fractionBits + 1) = 2 * twoPow f.fractionBits :=
    (twoPow_add _ 1).trans (Nat.mul_comm _ 2)
  have hquarter : twoPow (f.fractionBits + 2) = 2 * twoPow (f.fractionBits + 1) :=
    (twoPow_add _ 1).trans (Nat.mul_comm _ 2)
  constructor
  · calc f.rounded num den
        ≤ f.places num den * twoPow f.fractionBits + 2 * twoPow f.fractionBits :=
          Nat.add_le_add_left (hhalf ▸ hle) _
      _ = (f.places num den + 2) * twoPow f.fractionBits := (Nat.add_mul _ _ _).symm
      _ < (f.topPlaces + 2) * twoPow f.fractionBits :=
          Nat.mul_lt_mul_of_pos_right (Nat.add_lt_add_right h 2) hpos
      _ = f.infinity := (infinity_eq hf).symm
  · calc 2 * (num * twoPow f.lowest)
        < 2 * (den * twoPow (f.places num den) * twoPow (f.fractionBits + 1)) :=
          Nat.mul_lt_mul_of_pos_left hlt Nat.two_pos
      _ = den * (twoPow (f.fractionBits + 1) * (twoPow (f.places num den) * twoPow 1)) := by
          rw [show twoPow 1 = 2 from rfl]
          ring
      _ ≤ den * f.overflow := by
          rw [← twoPow_add]
          exact Nat.mul_le_mul_left _ (Nat.mul_le_mul (by omega) (twoPow_le h))

/-- With more places both are beyond. -/
theorem beyond_of_lt_places (h : f.topPlaces < f.places num den) :
    f.infinity ≤ f.rounded num den ∧ den * f.overflow ≤ 2 * (num * twoPow f.lowest) := by
  have hpositive : f.places num den ≠ 0 := Nat.ne_of_gt (Nat.zero_lt_of_lt h)
  have hreached := (f.places_spec hnum hden).2.resolve_left hpositive
  have hfull := (f.rounded_significand hnum hden).2.resolve_left hpositive
  constructor
  · calc f.infinity = (f.topPlaces + 1) * twoPow f.fractionBits + twoPow f.fractionBits := by
          rw [infinity_eq hf, ← Nat.succ_mul]
      _ ≤ f.rounded num den := Nat.add_le_add (Nat.mul_le_mul_right _ h) hfull
  · calc den * f.overflow
        ≤ den * (twoPow (f.fractionBits + 2) * twoPow f.topPlaces) :=
          Nat.mul_le_mul_left _ f.overflow_le
      _ = 2 * (den * twoPow (f.topPlaces + 1) * twoPow f.fractionBits) := by
          rw [twoPow_add f.topPlaces 1, twoPow_add _ 2, show twoPow 1 = 2 from rfl,
            show twoPow 2 = 4 from rfl]
          ring
      _ ≤ 2 * (den * twoPow (f.places num den) * twoPow f.fractionBits) :=
          Nat.mul_le_mul_left _ (Nat.mul_le_mul_right _ (Nat.mul_le_mul_left _ (twoPow_le h)))
      _ ≤ 2 * (num * twoPow f.lowest) := Nat.mul_le_mul_left _ hreached

/-- The word of a ratio reaches that of infinity from the overflow on. -/
theorem infinity_le_rounded_iff :
    f.infinity ≤ f.rounded num den ↔ den * f.overflow ≤ 2 * (num * twoPow f.lowest) := by
  rcases Nat.lt_trichotomy (f.places num den) f.topPlaces with hlt | heq | hgt
  · obtain ⟨hword, hratio⟩ := below_of_places_lt hf hnum hden hlt
    exact iff_of_false (Nat.not_le.mpr hword) (Nat.not_le.mpr hratio)
  · -- only the significand decides, and the first one of the next binade is even
    have hunit : 0 < den * twoPow (f.places num den) := Nat.mul_pos hden (twoPow_pos _)
    have hquarter : twoPow (f.fractionBits + 2) = 4 * twoPow f.fractionBits :=
      (twoPow_add _ 2).trans (Nat.mul_comm _ 4)
    rw [infinity_eq hf, rounded, Nat.add_mul, ← heq, Nat.add_le_add_iff_left,
      double_le_roundQuotient_iff hunit (twoPow_pos _), overflow, hquarter, ← heq, Nat.mul_assoc,
      Nat.mul_comm (twoPow _) (4 * _ - 1)]
  · obtain ⟨hword, hratio⟩ := beyond_of_lt_places hf hnum hden hgt
    exact iff_of_true hword hratio

end

/-- A ratio is rounded to infinity from the overflow on. -/
theorem roundRatio_eq_infinity_iff (hf : 1 < f.exponentBits) {num den : Nat} (hden : 0 < den) :
    f.roundRatio num den = f.infinity ↔ den * f.overflow ≤ 2 * (num * twoPow f.lowest) := by
  rcases Nat.eq_zero_or_pos num with rfl | hnum
  · have hinfinity : f.infinity ≠ 0 := by
      rw [infinity_eq hf]
      exact Nat.ne_of_gt (Nat.mul_pos (Nat.succ_pos _) (twoPow_pos _))
    have hoverflow : 0 < den * f.overflow := Nat.mul_pos hden f.overflow_pos
    rw [roundRatio, if_pos rfl, Nat.zero_mul]
    exact iff_of_false hinfinity.symm (Nat.not_le.mpr hoverflow)
  · rw [roundRatio_of_pos f hnum, min_eq_right_iff, infinity_le_rounded_iff hf hnum hden]

end BinaryFormat

namespace Double

open BinaryFormat (single double)

/-- The sign bit of a single. -/
def singleSign (negative : Bool) : Nat := if negative then twoPow 31 else 0

theorem toNat_toSingle {x : Double} (h : x.isFinite = true) :
    x.toSingle.toNat = singleSign x.isNegative +
      single.roundRatio (double.scaled x.magnitude) (twoPow double.lowest) := by
  have hlt : x.magnitude < double.infinity := of_decide_eq_true h
  have hle := single.roundRatio_le_infinity (double.scaled x.magnitude) (twoPow double.lowest)
  have hinfinity : single.infinity < twoPow 31 := by decide
  have hbits : twoPow 31 + twoPow 31 = 2 ^ 32 := rfl
  have hsign : singleSign x.isNegative ≤ twoPow 31 := by
    unfold singleSign
    split <;> omega
  rw [toSingle, reading, if_neg (Nat.lt_asymm hlt), if_neg (Nat.ne_of_lt hlt)]
  show (BitVec.ofNat 32 (singleSign x.isNegative +
    single.roundRatio (double.scaled x.magnitude) (twoPow double.lowest))).toNat = _
  rw [BitVec.toNat_ofNat, Nat.mod_eq_of_lt (by omega)]

theorem singleMagnitude_toSingle {x : Double} (h : x.isFinite = true) :
    singleMagnitude x.toSingle =
      single.roundRatio (double.scaled x.magnitude) (twoPow double.lowest) := by
  have hle := single.roundRatio_le_infinity (double.scaled x.magnitude) (twoPow double.lowest)
  have hinfinity : single.infinity < twoPow 31 := by decide
  rw [singleMagnitude, toNat_toSingle h]
  unfold singleSign
  split
  · rw [Nat.add_mod_left, Nat.mod_eq_of_lt (by omega)]
  · rw [Nat.zero_add, Nat.mod_eq_of_lt (by omega)]

/-- A finite double becomes infinite as a single from `2 ^ 128 - 2 ^ 103` on. -/
theorem singleMagnitude_toSingle_eq_infinity_iff {x : Double} (h : x.isFinite = true) :
    singleMagnitude x.toSingle = single.infinity ↔ (2 : ℚ) ^ 128 - 2 ^ 103 ≤ |x.value| := by
  have hvalue : |x.value| = double.scaled x.magnitude / twoPow double.lowest := by
    rw [value_of_isFinite h, abs_signed, abs_of_nonneg (size_nonneg _), size, cast_twoPow]
  have hpos : (0 : ℚ) < (twoPow double.lowest : Nat) := Nat.cast_pos.mpr (twoPow_pos _)
  have hbound : ((2 ^ 128 - 2 ^ 103 : Nat) : ℚ) = 2 ^ 128 - 2 ^ 103 := by norm_num
  rw [singleMagnitude_toSingle h,
    BinaryFormat.roundRatio_eq_infinity_iff (by decide) (twoPow_pos double.lowest), hvalue,
    le_div_iff₀ hpos, ← hbound, ← Nat.cast_mul, Nat.cast_le]
  have hoverflow : single.overflow = (2 ^ 128 - 2 ^ 103) * twoPow 150 := by decide
  have hscale : ∀ n, 2 * (n * twoPow single.lowest) = n * twoPow 150 := by
    intro n
    rw [show twoPow 150 = twoPow single.lowest * 2 from twoPow_add 149 1, Nat.mul_left_comm,
      Nat.mul_comm 2]
  rw [hoverflow, hscale, ← Nat.mul_assoc, Nat.mul_comm (twoPow _)]
  exact Nat.mul_le_mul_right_iff (twoPow_pos 150)

end Double

end BorshWire
