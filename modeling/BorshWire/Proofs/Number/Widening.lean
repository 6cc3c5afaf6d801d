import BorshWire.Number.Double
import BorshWire.Proofs.Number.Rounding

/-!
# Singles as doubles

Every finite single is a double as well. `toSingle_ofSingle`: narrowing that double gives the single
back, so that nothing is lost on the way of a single through a document.
-/

namespace BorshWire

namespace Double

theorem toNat_ofMagnitude {negative : Bool} {word : Nat} (h : word < twoPow 63) :
    (ofMagnitude negative word).bits.toNat = word + if negative then twoPow 63 else 0 := by
  have hbits : twoPow 63 + twoPow 63 = 2 ^ 64 := rfl
  unfold ofMagnitude
  rw [BitVec.toNat_ofNat, Nat.mod_eq_of_lt]
  split <;> omega

theorem reading_ofMagnitude {negative : Bool} {word : Nat}
    (h : word < BinaryFormat.double.infinity) :
    (ofMagnitude negative word).reading =
      .finite negative (BinaryFormat.double.split word).1 (BinaryFormat.double.split word).2 := by
  have hword : word < twoPow 63 := Nat.lt_trans h (by decide)
  have hmagnitude : (ofMagnitude negative word).magnitude = word := by
    unfold magnitude
    rw [toNat_ofMagnitude hword]
    split
    · rw [Nat.add_mod_right, Nat.mod_eq_of_lt hword]
    · rw [Nat.add_zero, Nat.mod_eq_of_lt hword]
  have hsign : (ofMagnitude negative word).isNegative = negative := by
    unfold isNegative
    rw [toNat_ofMagnitude hword]
    cases negative with
    | false => exact decide_eq_false (Nat.not_le.mpr hword)
    | true => exact decide_eq_true (Nat.le_add_left _ _)
  unfold reading
  rw [hmagnitude, hsign, if_neg (Nat.lt_asymm h), if_neg (Nat.ne_of_lt h)]

/-- The value of a single in the form of a double: shifted so far that its leading bit is set, the
significand stands as many places lower. -/
theorem exists_widened {significand places : Nat}
    (h : BinaryFormat.single.Normalized significand places)
    (hfinite : places * twoPow BinaryFormat.single.fractionBits + significand <
      BinaryFormat.single.infinity) :
    ∃ s p : Nat, BinaryFormat.double.Normalized s p ∧
      p * twoPow BinaryFormat.double.fractionBits + s < BinaryFormat.double.infinity ∧
      s * twoPow p * twoPow BinaryFormat.single.lowest =
        significand * twoPow places * twoPow BinaryFormat.double.lowest := by
  by_cases hzero : significand = 0
  · refine ⟨0, 0, ⟨by decide, .inl rfl⟩, by decide, ?_⟩
    simp only [hzero, Nat.zero_mul]
  obtain ⟨hlow, hhigh⟩ := twoPow_log2 (Nat.pos_of_ne_zero hzero)
  have hlog : significand.log2 < 24 := lt_of_twoPow_lt (Nat.lt_of_le_of_lt hlow h.lt)
  have hsplit : twoPow 52 = twoPow significand.log2 * twoPow (52 - significand.log2) := by
    rw [← twoPow_add, Nat.add_sub_cancel' (by omega)]
  have hnormal : BinaryFormat.double.Normalized (significand * twoPow (52 - significand.log2))
      (places + significand.log2 + 873) := by
    constructor
    · have hnext : twoPow 53 = twoPow (significand.log2 + 1) * twoPow (52 - significand.log2) := by
        rw [← twoPow_add]
        exact congrArg twoPow (by omega)
      show _ < twoPow 53
      rw [hnext]
      exact Nat.mul_lt_mul_of_pos_right hhigh (twoPow_pos _)
    · right
      show twoPow 52 ≤ _
      rw [hsplit]
      exact Nat.mul_le_mul_right _ hlow
  refine ⟨_, _, hnormal, ?_, ?_⟩
  · have hplaces : places < 255 := by
      have : places * twoPow 23 < 255 * twoPow 23 :=
        Nat.lt_of_le_of_lt (Nat.le_add_right _ significand) hfinite
      exact Nat.lt_of_mul_lt_mul_right this
    have hlt : significand * twoPow (52 - significand.log2) < twoPow 52 * 2 := hnormal.lt
    calc (places + significand.log2 + 873) * twoPow 52 +
          significand * twoPow (52 - significand.log2)
        < (places + significand.log2 + 873) * twoPow 52 + twoPow 52 * 2 :=
          Nat.add_lt_add_left hlt _
      _ = (places + significand.log2 + 875) * twoPow 52 := by
          rw [Nat.mul_comm (twoPow 52), ← Nat.add_mul]
      _ ≤ 2047 * twoPow 52 := Nat.mul_le_mul_right _ (by omega)
  · have hexponents : twoPow (52 - significand.log2) * twoPow (places + significand.log2 + 873) *
        twoPow 149 = twoPow places * twoPow 1074 := by
      simp only [← twoPow_add]
      exact congrArg twoPow (by omega)
    show significand * twoPow (52 - significand.log2) * twoPow (places + significand.log2 + 873) *
      twoPow 149 = significand * twoPow places * twoPow 1074
    rw [Nat.mul_assoc, Nat.mul_assoc, ← Nat.mul_assoc (twoPow _), hexponents, ← Nat.mul_assoc]

theorem reading_ofSingle {w : BitVec 32} (h : isFiniteSingle w = true) :
    ∃ s p : Nat, (ofSingle w).reading = .finite (decide (twoPow 31 ≤ w.toNat)) s p ∧
      s * twoPow p * twoPow BinaryFormat.single.lowest =
        (BinaryFormat.single.split (singleMagnitude w)).1 *
          twoPow (BinaryFormat.single.split (singleMagnitude w)).2 *
            twoPow BinaryFormat.double.lowest := by
  have hfinite : (BinaryFormat.single.split (singleMagnitude w)).2 *
      twoPow BinaryFormat.single.fractionBits +
      (BinaryFormat.single.split (singleMagnitude w)).1 < BinaryFormat.single.infinity := by
    have hword := BinaryFormat.word_split .single (singleMagnitude w)
    exact Nat.lt_of_le_of_lt (Nat.le_of_eq hword) (of_decide_eq_true h)
  obtain ⟨s, p, hnormal, hfinite', hratio⟩ :=
    exists_widened (BinaryFormat.normalized_split .single (singleMagnitude w)) hfinite
  refine ⟨s, p, ?_, hratio⟩
  unfold ofSingle ofRatio
  dsimp only
  rw [BinaryFormat.roundRatio_eq (twoPow_pos _) hnormal (Nat.le_of_lt hfinite') hratio.symm,
    reading_ofMagnitude hfinite', BinaryFormat.split_word hnormal]

theorem isFinite_of_reading {x : Double} {negative : Bool} {s p : Nat}
    (h : x.reading = .finite negative s p) : x.isFinite = true := by
  unfold reading at h
  split at h
  · cases h
  · split at h
    · cases h
    · exact decide_eq_true (by omega)

theorem isFinite_ofSingle {w : BitVec 32} (h : isFiniteSingle w = true) :
    (ofSingle w).isFinite = true := by
  obtain ⟨s, p, hreading, _⟩ := reading_ofSingle h
  exact isFinite_of_reading hreading

/-- Narrowing the double of a finite single gives the single. -/
theorem toSingle_ofSingle {w : BitVec 32} (h : isFiniteSingle w = true) :
    (ofSingle w).toSingle = w := by
  obtain ⟨s, p, hreading, hratio⟩ := reading_ofSingle h
  have hword := BinaryFormat.word_split .single (singleMagnitude w)
  have hround : BinaryFormat.single.roundRatio (s * twoPow p) (twoPow BinaryFormat.double.lowest) =
      singleMagnitude w := by
    rw [BinaryFormat.roundRatio_eq (twoPow_pos _)
      (BinaryFormat.normalized_split .single (singleMagnitude w)) ?_ hratio, hword]
    rw [hword]
    exact Nat.le_of_lt (of_decide_eq_true h)
  have hnegative : (ofSingle w).isNegative = decide (twoPow 31 ≤ w.toNat) := by
    unfold reading at hreading
    split at hreading
    · cases hreading
    · split at hreading
      · cases hreading
      · exact (Reading.finite.inj hreading).1
  have hsum : (if twoPow 31 ≤ w.toNat then twoPow 31 else 0) + singleMagnitude w = w.toNat := by
    have hlt : w.toNat < twoPow 31 + twoPow 31 := w.isLt
    unfold singleMagnitude
    split
    · rename_i hle
      rw [Nat.mod_eq_sub_mod hle, Nat.mod_eq_of_lt (by omega)]
      omega
    · rename_i hle
      rw [Nat.mod_eq_of_lt (by omega), Nat.zero_add]
  unfold toSingle
  rw [hreading, hnegative]
  dsimp only
  rw [hround]
  simp only [decide_eq_true_eq]
  rw [hsum, BitVec.ofNat_toNat, BitVec.setWidth_eq]

end Double

end BorshWire
