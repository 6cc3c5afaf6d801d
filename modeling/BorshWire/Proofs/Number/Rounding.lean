import BorshWire.Number.Binary

/-!
# Ratios that a format holds exactly

A magnitude word stands for a significand and its places, either normalised or at the lowest place
(`Normalized`); the two and the word determine each other. `roundRatio_eq`: the ratio that a word
stands for is rounded to that word.
-/

namespace BorshWire

theorem twoPow_log2 {n : Nat} (h : 0 < n) : twoPow n.log2 ≤ n ∧ n < twoPow (n.log2 + 1) :=
  ⟨Nat.log2_self_le (Nat.ne_of_gt h), Nat.lt_log2_self⟩

namespace BinaryFormat

/-! ## The logarithm of a ratio -/

/-- The logarithm is known from the powers of two on both sides of the ratio. -/
theorem floorLog_eq {num den a b : Nat} (hnum : 0 < num) (hden : 0 < den)
    (low : den * twoPow a ≤ num * twoPow b) (high : num * twoPow b < den * twoPow (a + 1)) :
    floorLog num den = (a : Int) - b := by
  obtain ⟨hn, hn'⟩ := twoPow_log2 hnum
  obtain ⟨hd, hd'⟩ := twoPow_log2 hden
  -- the difference of the logarithms is the right one or one too great
  have hupper : den.log2 + a < num.log2 + 1 + b := by
    apply lt_of_twoPow_lt
    calc twoPow (den.log2 + a) = twoPow den.log2 * twoPow a := twoPow_add _ _
      _ ≤ den * twoPow a := Nat.mul_le_mul_right _ hd
      _ ≤ num * twoPow b := low
      _ < twoPow (num.log2 + 1) * twoPow b := Nat.mul_lt_mul_of_pos_right hn' (twoPow_pos b)
      _ = twoPow (num.log2 + 1 + b) := (twoPow_add _ _).symm
  have hlower : num.log2 + b < den.log2 + 1 + (a + 1) := by
    apply lt_of_twoPow_lt
    calc twoPow (num.log2 + b) = twoPow num.log2 * twoPow b := twoPow_add _ _
      _ ≤ num * twoPow b := Nat.mul_le_mul_right _ hn
      _ < den * twoPow (a + 1) := high
      _ ≤ twoPow (den.log2 + 1) * twoPow (a + 1) := Nat.mul_le_mul_right _ (Nat.le_of_lt hd')
      _ = twoPow (den.log2 + 1 + (a + 1)) := (twoPow_add _ _).symm
  unfold floorLog
  dsimp only
  by_cases hk : (0 : Int) ≤ (num.log2 : Int) - den.log2
  · obtain ⟨k, hk'⟩ := Int.eq_ofNat_of_zero_le hk
    rw [hk', if_pos (Int.natCast_nonneg k), Int.toNat_natCast]
    by_cases hexact : a = k + b
    · have hle : den * twoPow k ≤ num := by
        rw [hexact, twoPow_add, ← Nat.mul_assoc] at low
        exact Nat.le_of_mul_le_mul_right low (twoPow_pos b)
      simp only [hle, decide_true, if_true]
      omega
    · have hlt : ¬den * twoPow k ≤ num := by
        rw [show a + 1 = k + b by omega, twoPow_add, ← Nat.mul_assoc] at high
        exact Nat.not_le.mpr (Nat.lt_of_mul_lt_mul_right high)
      simp only [hlt, decide_false, Bool.false_eq_true, if_false]
      omega
  · obtain ⟨k, hk'⟩ : ∃ k : Nat, (num.log2 : Int) - den.log2 = -k :=
      ⟨den.log2 - num.log2, by omega⟩
    have hneg : ¬(0 : Int) ≤ -(k : Int) := by omega
    rw [hk', if_neg hneg, Int.neg_neg, Int.toNat_natCast]
    by_cases hexact : a + k = b
    · have hle : den ≤ num * twoPow k := by
        rw [← hexact, twoPow_add, Nat.mul_comm (twoPow a), ← Nat.mul_assoc] at low
        exact Nat.le_of_mul_le_mul_right low (twoPow_pos a)
      simp only [hle, decide_true, if_true]
      omega
    · have hlt : ¬den ≤ num * twoPow k := by
        rw [show b = k + (a + 1) by omega, twoPow_add, ← Nat.mul_assoc] at high
        exact Nat.not_le.mpr (Nat.lt_of_mul_lt_mul_right high)
      simp only [hlt, decide_false, Bool.false_eq_true, if_false]
      omega

/-! ## Significands and places -/

/-- The form in which a word holds a finite magnitude: no bit above the leading one, and the leading
one set unless the last bit stands at the lowest place. -/
structure Normalized (f : BinaryFormat) (significand places : Nat) : Prop where
  lt : significand < twoPow (f.fractionBits + 1)
  leading : places = 0 ∨ twoPow f.fractionBits ≤ significand

variable {f : BinaryFormat}

theorem normalized_split (f : BinaryFormat) (word : Nat) :
    f.Normalized (f.split word).1 (f.split word).2 := by
  have hlt := Nat.mod_lt word (twoPow_pos f.fractionBits)
  have hdouble : twoPow (f.fractionBits + 1) = twoPow f.fractionBits * 2 := twoPow_add _ 1
  unfold split
  dsimp only
  split
  · exact ⟨by dsimp only; omega, .inl rfl⟩
  · exact ⟨by dsimp only; omega, .inr (by dsimp only; omega)⟩

theorem word_split (f : BinaryFormat) (word : Nat) :
    (f.split word).2 * twoPow f.fractionBits + (f.split word).1 = word := by
  have hword := Nat.div_add_mod' word (twoPow f.fractionBits)
  unfold split
  dsimp only
  split
  · rename_i h
    rw [h] at hword
    exact hword
  · rename_i h
    obtain ⟨e, he⟩ := Nat.exists_eq_succ_of_ne_zero h
    rw [he, Nat.succ_mul] at hword
    rw [he, Nat.succ_sub_one]
    dsimp only
    omega

theorem split_word {significand places : Nat} (h : f.Normalized significand places) :
    f.split (places * twoPow f.fractionBits + significand) = (significand, places) := by
  have hpos := twoPow_pos f.fractionBits
  have hlt : significand < twoPow f.fractionBits * 2 := h.lt
  unfold split
  by_cases hleading : twoPow f.fractionBits ≤ significand
  · have hword : places * twoPow f.fractionBits + significand =
        (significand - twoPow f.fractionBits) + twoPow f.fractionBits * (places + 1) := by
      rw [Nat.mul_succ, Nat.mul_comm]
      omega
    rw [hword, Nat.add_mul_mod_self_left, Nat.add_mul_div_left _ _ hpos,
      Nat.mod_eq_of_lt (by omega), Nat.div_eq_of_lt (by omega), Nat.zero_add]
    dsimp only
    rw [if_neg (Nat.succ_ne_zero places), Nat.succ_sub_one, Nat.add_sub_cancel' hleading]
  · obtain rfl : places = 0 := h.leading.resolve_right hleading
    rw [Nat.zero_mul, Nat.zero_add, Nat.mod_eq_of_lt (by omega), Nat.div_eq_of_lt (by omega)]
    exact if_pos rfl

/-! ## Rounding a ratio to itself -/

/-- The ratio that a word stands for is rounded to the word. -/
theorem roundRatio_eq {num den significand places : Nat} (hden : 0 < den)
    (h : f.Normalized significand places)
    (hfinite : places * twoPow f.fractionBits + significand ≤ f.infinity)
    (hratio : num * twoPow f.lowest = significand * twoPow places * den) :
    f.roundRatio num den = places * twoPow f.fractionBits + significand := by
  unfold roundRatio
  by_cases hnum : num = 0
  · rw [if_pos hnum]
    rw [hnum, Nat.zero_mul] at hratio
    have hzero : significand = 0 := by
      rcases Nat.mul_eq_zero.mp hratio.symm with hs | hd
      · exact (Nat.mul_eq_zero.mp hs).resolve_right (Nat.ne_of_gt (twoPow_pos places))
      · exact absurd hd (Nat.ne_of_gt hden)
    have hplaces : places = 0 := h.leading.resolve_right fun hle => by
      have := twoPow_pos f.fractionBits
      omega
    rw [hzero, hplaces, Nat.zero_mul]
  have hsignificand : 0 < significand := by
    refine Nat.pos_of_ne_zero fun hs => ?_
    simp only [hs, Nat.zero_mul] at hratio
    rcases Nat.mul_eq_zero.mp hratio with hn | hp
    · exact hnum hn
    · exact absurd hp (Nat.ne_of_gt (twoPow_pos f.lowest))
  obtain ⟨hlow, hhigh⟩ := twoPow_log2 hsignificand
  have hlog : floorLog num den = ((significand.log2 + places : Nat) : Int) - f.lowest := by
    apply floorLog_eq (Nat.pos_of_ne_zero hnum) hden
    · rw [hratio, Nat.mul_comm den, twoPow_add]
      exact Nat.mul_le_mul_right den (Nat.mul_le_mul_right _ hlow)
    · rw [hratio, Nat.mul_comm den, Nat.add_right_comm, twoPow_add]
      exact Nat.mul_lt_mul_of_pos_right (Nat.mul_lt_mul_of_pos_right hhigh (twoPow_pos _)) hden
  have hplaces : (floorLog num den - f.fractionBits + f.lowest).toNat = places := by
    have hle : significand.log2 < f.fractionBits + 1 :=
      lt_of_twoPow_lt (Nat.lt_of_le_of_lt hlow h.lt)
    rw [hlog]
    rcases h.leading with hzero | hleading
    · omega
    · have hge : f.fractionBits < significand.log2 + 1 :=
        lt_of_twoPow_lt (Nat.lt_of_le_of_lt hleading hhigh)
      omega
  rw [if_neg hnum]
  dsimp only
  rw [hplaces, hratio, Nat.mul_assoc, Nat.mul_comm (twoPow places),
    roundQuotient_mul _ (Nat.mul_pos hden (twoPow_pos places))]
  exact Nat.min_eq_left hfinite

end BinaryFormat

end BorshWire
