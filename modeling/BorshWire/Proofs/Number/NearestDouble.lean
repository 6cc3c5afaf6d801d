import BorshWire.Proofs.Number.Nearest
import BorshWire.Proofs.Number.Widening
import Mathlib.Algebra.Order.Field.Rat
import Mathlib.Tactic.Linarith
import Mathlib.Tactic.NormNum
import Mathlib.Tactic.Positivity

/-!
# The nearest double

`isNearest_ofRatio`: a ratio that is not rounded to infinity is rounded to the nearest double, and of
two that are as near to the one whose last bit is not set (`Double.IsNearest`). A ratio has one
nearest value (`IsNearest.value_eq`).
-/

namespace BorshWire

open BinaryFormat (double)

theorem cast_twoPow (n : Nat) : ((twoPow n : Nat) : ℚ) = 2 ^ n := Nat.cast_pow 2 n

theorem cast_dist (m n : Nat) : ((Nat.dist m n : Nat) : ℚ) = |(m : ℚ) - n| := by
  unfold Nat.dist
  rcases Nat.le_total m n with h | h
  · rw [Nat.sub_eq_zero_of_le h, Nat.zero_add, Nat.cast_sub h, abs_sub_comm, abs_of_nonneg]
    exact sub_nonneg.mpr (Nat.cast_le.mpr h)
  · rw [Nat.sub_eq_zero_of_le h, Nat.add_zero, Nat.cast_sub h, abs_of_nonneg]
    exact sub_nonneg.mpr (Nat.cast_le.mpr h)

namespace Double

/-! ## Values -/

/-- A number with a sign. -/
def signed (negative : Bool) (q : ℚ) : ℚ := if negative then -q else q

theorem abs_signed (negative : Bool) (q : ℚ) : |signed negative q| = |q| := by
  cases negative
  · rfl
  · exact abs_neg q

/-- The number that a magnitude word stands for. -/
def size (word : Nat) : ℚ := double.scaled word / 2 ^ double.lowest

theorem size_zero : size 0 = 0 := by
  rw [size, BinaryFormat.scaled_zero, Nat.cast_zero, zero_div]

theorem size_lt_iff {m n : Nat} : size m < size n ↔ m < n := by
  rw [size, size, div_lt_div_iff_of_pos_right (by positivity), Nat.cast_lt]
  exact double.scaled_strictMono.lt_iff_lt

theorem size_nonneg (word : Nat) : 0 ≤ size word :=
  div_nonneg (Nat.cast_nonneg _) (pow_nonneg zero_le_two _)

theorem size_pos_iff {word : Nat} : 0 < size word ↔ 0 < word := by
  rw [← size_lt_iff, size_zero]

/-- The number that a finite double stands for. -/
def value (x : Double) : ℚ :=
  match x.reading with
  | .finite negative significand places =>
    signed negative (significand * 2 ^ places / 2 ^ double.lowest)
  | _ => 0

theorem value_of_reading {x : Double} {negative : Bool} {word : Nat}
    (h : x.reading = .finite negative (double.split word).1 (double.split word).2) :
    x.value = signed negative (size word) := by
  rw [value, h, size, BinaryFormat.scaled, Nat.cast_mul, cast_twoPow]

theorem value_of_isFinite {x : Double} (h : x.isFinite = true) :
    x.value = signed x.isNegative (size x.magnitude) := by
  have hlt : x.magnitude < double.infinity := of_decide_eq_true h
  apply value_of_reading
  rw [reading, if_neg (Nat.lt_asymm hlt), if_neg (Nat.ne_of_lt hlt)]

theorem isFinite_ofMagnitude {negative : Bool} {word : Nat} (h : word < double.infinity) :
    (ofMagnitude negative word).isFinite = true :=
  isFinite_of_reading (reading_ofMagnitude h)

theorem value_ofMagnitude {negative : Bool} {word : Nat} (h : word < double.infinity) :
    (ofMagnitude negative word).value = signed negative (size word) :=
  value_of_reading (reading_ofMagnitude h)

theorem isFinite_infinite (negative : Bool) : (infinite negative).isFinite = false := by
  cases negative <;> decide

theorem parts_ofMagnitude (negative : Bool) {word : Nat} (h : word < twoPow 63) :
    (ofMagnitude negative word).magnitude = word ∧
      (ofMagnitude negative word).isNegative = negative := by
  rw [magnitude, isNegative, toNat_ofMagnitude h]
  cases negative
  · simp [Nat.mod_eq_of_lt h, h]
  · simp [Nat.mod_eq_of_lt h]

theorem value_of_toInt? {x : Double} {m : Int} (h : x.toInt? = some m) :
    x.isFinite = true ∧ x.value = m := by
  unfold toInt? at h
  split at h
  · rename_i negative significand places hreading
    dsimp only at h
    split at h
    · rename_i hexact
      obtain ⟨n, hn⟩ := Nat.dvd_of_mod_eq_zero hexact
      rw [hn, Nat.mul_div_cancel_left _ (twoPow_pos _)] at h
      obtain rfl := Option.some.inj h
      refine ⟨isFinite_of_reading hreading, ?_⟩
      have hn' : (significand * 2 ^ places : ℚ) = 2 ^ double.lowest * n := by
        have hcast := congrArg (Nat.cast (R := ℚ)) hn
        rwa [Nat.cast_mul, Nat.cast_mul, cast_twoPow, cast_twoPow] at hcast
      rw [value, hreading]
      dsimp only
      rw [hn', mul_div_cancel_left₀ _ (by positivity)]
      cases negative <;> simp [signed]
    · cases h
  · cases h

theorem toInt?_of_value {x : Double} {m : Int} (hfinite : x.isFinite = true) (h : x.value = m) :
    x.toInt? = some m := by
  rw [value_of_isFinite hfinite] at h
  have hlt : x.magnitude < double.infinity := of_decide_eq_true hfinite
  have hscaled : double.scaled x.magnitude = m.natAbs * twoPow double.lowest := by
    have habs : |signed x.isNegative (size x.magnitude)| = m.natAbs := by
      rw [h, Nat.cast_natAbs, Int.cast_abs]
    rw [abs_signed, abs_of_nonneg (size_nonneg _), size, div_eq_iff (by positivity),
      ← cast_twoPow] at habs
    exact_mod_cast habs
  have hsize : size x.magnitude = m.natAbs := by
    rw [size, hscaled, Nat.cast_mul, cast_twoPow, mul_div_cancel_right₀ _ (by positivity)]
  have hsign : (if x.isNegative then -(m.natAbs : Int) else m.natAbs) = m := by
    rw [hsize] at h
    refine Int.cast_injective (Eq.trans ?_ h)
    cases x.isNegative <;> simp [signed]
  rw [toInt?, reading, if_neg (Nat.lt_asymm hlt), if_neg (Nat.ne_of_lt hlt)]
  show (if double.scaled x.magnitude % twoPow double.lowest = 0 then
    some (if x.isNegative then -((double.scaled x.magnitude / twoPow double.lowest : Nat) : Int)
      else (double.scaled x.magnitude / twoPow double.lowest : Nat)) else none) = some m
  rw [hscaled, if_pos (Nat.mul_mod_left _ _), Nat.mul_div_cancel _ (twoPow_pos _), hsign]

/-! ## Nearest values -/

/-- No finite double is nearer to the number, and any other one that is as near has another value
only if the last bit of this one is not set. -/
structure IsNearest (q : ℚ) (x : Double) : Prop where
  finite : x.isFinite = true
  nearest : ∀ y : Double, y.isFinite = true → |x.value - q| ≤ |y.value - q|
  even : ∀ y : Double, y.isFinite = true → |y.value - q| = |x.value - q| →
    y.value = x.value ∨ x.magnitude % 2 = 0

/-- A double is nearest to its value. -/
theorem isNearest_value {x : Double} (h : x.isFinite = true) : IsNearest x.value x where
  finite := h
  nearest y _ := by rw [sub_self, abs_zero]; exact abs_nonneg _
  even y _ heq := by
    rw [sub_self, abs_zero, abs_eq_zero, sub_eq_zero] at heq
    exact .inl heq

/-- What is between two numbers is nearer to the middle. -/
theorem abs_sub_lt_of_between {x y z q : ℚ} (hxz : x < z) (hzy : z < y) (h : |x - q| = |y - q|) :
    |z - q| < |x - q| := by
  rcases abs_eq_abs.mp h with h | h
  · linarith
  · have hx : x - q ≤ 0 := by linarith
    rw [abs_of_nonpos hx, abs_lt]
    constructor <;> linarith

theorem exists_of_between {x y : Double} (negative : Bool) {word : Nat} (h : word < double.infinity)
    (hlow : x.value < signed negative (size word)) (hhigh : signed negative (size word) < y.value) :
    ∃ z : Double, z.isFinite = true ∧ x.value < z.value ∧ z.value < y.value := by
  rw [← value_ofMagnitude h] at hlow hhigh
  exact ⟨_, isFinite_ofMagnitude h, hlow, hhigh⟩

/-- Between doubles of different values whose last bits are not set stands another double. -/
theorem exists_between {x y : Double} (hx : x.isFinite = true) (hy : y.isFinite = true)
    (hxe : x.magnitude % 2 = 0) (hye : y.magnitude % 2 = 0) (hlt : x.value < y.value) :
    ∃ z : Double, z.isFinite = true ∧ x.value < z.value ∧ z.value < y.value := by
  have hx' : x.magnitude < double.infinity := of_decide_eq_true hx
  have hy' : y.magnitude < double.infinity := of_decide_eq_true hy
  have hbetween := @exists_of_between x y
  have hxn := size_nonneg x.magnitude
  have hyn := size_nonneg y.magnitude
  have hone : 0 < size 1 := size_pos_iff.mpr Nat.one_pos
  rw [value_of_isFinite hx, value_of_isFinite hy] at hlt hbetween ⊢
  -- the word in between is next to that of one of the two, on the side of the other
  cases hsx : x.isNegative <;> cases hsy : y.isNegative <;>
    simp only [hsx, hsy, signed, if_true, Bool.false_eq_true, if_false] at hlt hbetween ⊢
  · have hwords := size_lt_iff.mp hlt
    refine hbetween false (by omega : x.magnitude + 1 < double.infinity) ?_ ?_
    · exact size_lt_iff.mpr (Nat.lt_succ_self _)
    · exact size_lt_iff.mpr (by omega)
  · linarith
  · by_cases hzero : y.magnitude = 0
    · rw [hzero, size_zero] at hlt hyn hbetween ⊢
      have hxpos : 0 < x.magnitude := size_pos_iff.mp (neg_lt_zero.mp hlt)
      refine hbetween true (by decide : 1 < double.infinity) ?_ ?_
      · exact neg_lt_neg (size_lt_iff.mpr (by omega))
      · exact neg_lt_zero.mpr hone
    · refine hbetween false (by decide : 1 < double.infinity) ?_ ?_
      · exact lt_of_le_of_lt (neg_nonpos.mpr hxn) hone
      · exact size_lt_iff.mpr (by omega)
  · have hwords := size_lt_iff.mp (neg_lt_neg_iff.mp hlt)
    refine hbetween true (by omega : y.magnitude + 1 < double.infinity) ?_ ?_
    · exact neg_lt_neg (size_lt_iff.mpr (by omega))
    · exact neg_lt_neg (size_lt_iff.mpr (Nat.lt_succ_self _))

/-- A number has one nearest value. -/
theorem IsNearest.value_eq {x y : Double} {q : ℚ} (hx : IsNearest q x) (hy : IsNearest q y) :
    x.value = y.value := by
  have hdist : |x.value - q| = |y.value - q| :=
    le_antisymm (hx.nearest y hy.finite) (hy.nearest x hx.finite)
  by_contra hne
  have hxe := (hx.even y hy.finite hdist.symm).resolve_left (Ne.symm hne)
  have hye := (hy.even x hx.finite hdist).resolve_left hne
  rcases lt_or_gt_of_ne hne with hlt | hlt
  · obtain ⟨z, hz, hxz, hzy⟩ := exists_between hx.finite hy.finite hxe hye hlt
    exact absurd (hx.nearest z hz) (not_le.mpr (abs_sub_lt_of_between hxz hzy hdist))
  · obtain ⟨z, hz, hyz, hzx⟩ := exists_between hy.finite hx.finite hye hxe hlt
    exact absurd (hy.nearest z hz) (not_le.mpr (abs_sub_lt_of_between hyz hzx hdist.symm))

/-! ## Zero -/

/-- Beside zero no finite double is smaller than one unit of the last place. -/
theorem le_abs_value {y : Double} (hy : y.isFinite = true) (hne : y.value ≠ 0) :
    1 / 2 ^ double.lowest ≤ |y.value| := by
  have habs : |y.value| = double.scaled y.magnitude / 2 ^ double.lowest := by
    rw [value_of_isFinite hy, abs_signed, abs_of_nonneg (size_nonneg _), size]
  have hpos : 0 < double.scaled y.magnitude := by
    refine Nat.pos_of_ne_zero fun h => hne ?_
    rw [h, Nat.cast_zero, zero_div] at habs
    exact abs_eq_zero.mp habs
  rw [habs]
  exact div_le_div_of_nonneg_right (Nat.one_le_cast.mpr hpos) (by positivity)

theorem isNearest_zero {q : ℚ} (hq : |q| < 1 / 2 ^ double.lowest / 2) {x : Double}
    (hx : x.isFinite = true) (hvalue : x.value = 0) : IsNearest q x := by
  have hfar : ∀ y : Double, y.isFinite = true → y.value ≠ 0 → |q| < |y.value - q| := by
    intro y hy hne
    have hunit := le_abs_value hy hne
    have htriangle := abs_sub_abs_le_abs_sub y.value q
    linarith
  have hown : |x.value - q| = |q| := by rw [hvalue, zero_sub, abs_neg]
  refine ⟨hx, fun y hy => ?_, fun y hy heq => .inl ?_⟩
  · by_cases hne : y.value = 0
    · rw [hne, hvalue]
    · exact hown ▸ (hfar y hy hne).le
  · by_contra hne
    rw [hvalue] at hne
    exact absurd (heq.trans hown) (hfar y hy hne).ne'

/-! ## Ratios -/

/-- The distance of a finite double from a ratio, in units of the last place over the denominator:
the difference of the magnitudes, or their sum if the signs are not the same. -/
def gap (negative : Bool) (num den : Nat) (y : Double) : Nat :=
  if y.isNegative = negative then
    Nat.dist (double.scaled y.magnitude * den) (num * twoPow double.lowest)
  else double.scaled y.magnitude * den + num * twoPow double.lowest

theorem abs_sub_eq_gap {negative : Bool} {num den : Nat} (hden : 0 < den) {y : Double}
    (hy : y.isFinite = true) :
    |y.value - signed negative (num / den)| =
      gap negative num den y / (den * 2 ^ double.lowest) := by
  have hden' : (0 : ℚ) < den := Nat.cast_pos.mpr hden
  have hunit : (0 : ℚ) < 2 ^ double.lowest := by positivity
  have hdiff : |(double.scaled y.magnitude / 2 ^ double.lowest - num / den : ℚ)| =
      (Nat.dist (double.scaled y.magnitude * den) (num * twoPow double.lowest) : Nat) /
        (den * 2 ^ double.lowest) := by
    rw [cast_dist, Nat.cast_mul, Nat.cast_mul, cast_twoPow, div_sub_div _ _ hunit.ne' hden'.ne',
      abs_div, abs_of_pos (mul_pos hunit hden'), mul_comm (2 ^ double.lowest : ℚ) den,
      mul_comm (2 ^ double.lowest : ℚ) num]
  have hsum : (double.scaled y.magnitude / 2 ^ double.lowest + num / den : ℚ) =
      (double.scaled y.magnitude * den + num * twoPow double.lowest : Nat) /
        (den * 2 ^ double.lowest) := by
    rw [Nat.cast_add, Nat.cast_mul, Nat.cast_mul, cast_twoPow, div_add_div _ _ hunit.ne' hden'.ne',
      mul_comm (2 ^ double.lowest : ℚ) den, mul_comm (2 ^ double.lowest : ℚ) num]
  have hnonneg : (0 : ℚ) ≤ double.scaled y.magnitude / 2 ^ double.lowest + num / den :=
    add_nonneg (div_nonneg (Nat.cast_nonneg _) hunit.le) (div_nonneg (Nat.cast_nonneg _) hden'.le)
  rw [value_of_isFinite hy, gap, size]
  cases hy : y.isNegative <;> cases negative <;> simp only [signed, if_true, Bool.false_eq_true,
    if_false, reduceCtorEq]
  · exact hdiff
  · rw [sub_neg_eq_add, abs_of_nonneg hnonneg, hsum]
  · rw [← neg_add', abs_neg, abs_of_nonneg hnonneg, hsum]
  · rw [neg_sub_neg, abs_sub_comm, hdiff]

theorem gap_le_iff {negative : Bool} {num den : Nat} (hden : 0 < den) {x y : Double}
    (hx : x.isFinite = true) (hy : y.isFinite = true) :
    |x.value - signed negative (num / den)| ≤ |y.value - signed negative (num / den)| ↔
      gap negative num den x ≤ gap negative num den y := by
  rw [abs_sub_eq_gap hden hx, abs_sub_eq_gap hden hy, div_le_div_iff_of_pos_right (by positivity),
    Nat.cast_le]

/-- The word that a ratio is rounded to makes the nearest double. -/
theorem isNearest_of_rounded {num den : Nat} (hnum : 0 < num) (hden : 0 < den) {x : Double}
    (hx : x.isFinite = true) (hmagnitude : x.magnitude = double.rounded num den) :
    IsNearest (signed x.isNegative (num / den)) x := by
  have hnearest := BinaryFormat.rounded_nearest (f := double) (by decide) hnum hden
  rw [← hmagnitude] at hnearest
  have hgap : gap x.isNegative num den x =
      Nat.dist (double.scaled x.magnitude * den) (num * twoPow double.lowest) := if_pos rfl
  -- zero is as near as any double of the other sign, or nearer
  have hzero := hnearest 0
  rw [BinaryFormat.scaled_zero, Nat.zero_mul, Nat.dist_zero_left] at hzero
  refine ⟨hx, fun y hy => ?_, fun y hy heq => ?_⟩
  · rw [gap_le_iff hden hx hy, hgap, gap]
    split
    · exact (hnearest y.magnitude).1
    · omega
  · have hgaps : gap x.isNegative num den y = gap x.isNegative num den x :=
      Nat.le_antisymm ((gap_le_iff hden hy hx).mp heq.le) ((gap_le_iff hden hx hy).mp heq.ge)
    rw [hgap, gap] at hgaps
    split at hgaps
    · rename_i hsame
      refine ((hnearest y.magnitude).2 hgaps).imp_left fun hword => ?_
      rw [value_of_isFinite hy, value_of_isFinite hx, hsame, hword]
    · -- then zero is as near, too
      have htie := hzero.2 (by omega)
      omega

/-- A ratio that is not rounded to infinity is rounded to the nearest double. -/
theorem isNearest_ofRatio {negative : Bool} {num den : Nat} (hden : 0 < den)
    (h : (ofRatio negative num den).isFinite = true) :
    IsNearest (signed negative (num / den)) (ofRatio negative num den) := by
  obtain ⟨hmagnitude, hsign⟩ := parts_ofMagnitude negative
    (Nat.lt_of_le_of_lt (double.roundRatio_le_infinity num den) (by decide))
  rcases Nat.eq_zero_or_pos num with rfl | hnum
  · have hvalue : signed negative ((0 : Nat) / den) = (ofRatio negative 0 den).value := by
      rw [value_of_isFinite h, ofRatio, hmagnitude, hsign]
      show _ = signed negative (size 0)
      rw [size_zero, Nat.cast_zero, zero_div]
    rw [hvalue]
    exact isNearest_value h
  · have hlt : (ofRatio negative num den).magnitude < double.infinity := of_decide_eq_true h
    have hrounded : (ofRatio negative num den).magnitude = double.rounded num den := by
      -- nothing was cut off
      rw [ofRatio, hmagnitude] at hlt ⊢
      rw [BinaryFormat.roundRatio_of_pos _ hnum] at hlt ⊢
      omega
    have hnearest := isNearest_of_rounded hnum hden h hrounded
    rwa [show (ofRatio negative num den).isNegative = negative from hsign] at hnearest

end Double

end BorshWire
