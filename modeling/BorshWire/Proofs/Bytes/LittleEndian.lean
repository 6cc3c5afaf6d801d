import BorshWire.Wire.IntRange

/-!
# Numbers out of little-endian bytes

`ofLittleEndian_littleEndian`: bytes with the lowest first give the number back, as far as they hold
it. `IntKind.ofBytes_bytes`: the bytes of an integer give it back if it is in the range of its type.
-/

namespace BorshWire

@[simp] theorem ofLittleEndian_littleEndian (width n : Nat) :
    ofLittleEndian (littleEndian width n) = n % twoPow (8 * width) := by
  induction width generalizing n with
  | zero =>
    show 0 = n % 1
    rw [Nat.mod_one]
  | succ width ih =>
    have hbyte : (UInt8.ofNat (n % 256)).toNat = n % 256 := by
      rw [UInt8.toNat_ofNat']
      omega
    have hpow : twoPow (8 * (width + 1)) = 256 * twoPow (8 * width) := by
      rw [Nat.mul_succ, Nat.add_comm, twoPow_add]
      rfl
    rw [littleEndian, ofLittleEndian, ih, hbyte, hpow, Nat.mod_mul]

theorem ofLittleEndian_of_lt {width n : Nat} (h : n < twoPow (8 * width)) :
    ofLittleEndian (littleEndian width n) = n := by
  rw [ofLittleEndian_littleEndian, Nat.mod_eq_of_lt h]

theorem ofNat_ofLittleEndian {bits : Nat} (width : Nat) (h : bits = 8 * width) (w : BitVec bits) :
    BitVec.ofNat bits (ofLittleEndian (littleEndian width w.toNat)) = w := by
  have hlt : w.toNat < twoPow (8 * width) := by
    rw [← h]
    exact w.isLt
  rw [ofLittleEndian_of_lt hlt, BitVec.ofNat_toNat, BitVec.setWidth_eq]

namespace IntKind

theorem exists_half (k : IntKind) : ∃ half : Nat, twoPow k.bits = 2 * half ∧ 0 < half := by
  obtain ⟨signed, width⟩ := k
  cases width <;> exact ⟨_, Nat.pow_succ', by decide⟩

theorem ofBytes_bytes {k : IntKind} {n : Int} (h : k.range.contains n = true) :
    k.ofBytes (k.range.bytes n) = n := by
  obtain ⟨half, hhalf, hpos⟩ := k.exists_half
  have hnat : ofLittleEndian (k.range.bytes n) = (n % twoPow k.bits).toNat := by
    unfold IntRange.bytes
    rw [width_range]
    apply ofLittleEndian_of_lt
    show (n % (twoPow k.bits : Nat)).toNat < twoPow k.bits
    have := Int.emod_lt_of_pos n (show (0 : Int) < (twoPow k.bits : Nat) by omega)
    omega
  have hbounds : k.range.least ≤ n ∧ n ≤ k.range.greatest := of_decide_eq_true h
  unfold IntRange.least IntRange.greatest at hbounds
  have hr : k.range.signed = k.signed ∧ twoPow k.range.bits = 2 * half := ⟨rfl, hhalf⟩
  rw [hr.1, hr.2] at hbounds
  unfold ofBytes
  simp only [hnat, hhalf]
  cases hs : k.signed with
  | false =>
    simp only [hs, Bool.false_eq_true, if_false] at hbounds
    rw [if_neg (by simp), Int.emod_eq_of_lt hbounds.1 (by omega)]
    omega
  | true =>
    simp only [hs, if_true] at hbounds
    by_cases hn : n < 0
    · have hmod : n % ((2 * half : Nat) : Int) = n + (2 * half : Nat) := by
        rw [← Int.add_emod_right, Int.emod_eq_of_lt (by omega) (by omega)]
      rw [hmod, if_pos ⟨rfl, by omega⟩]
      omega
    · rw [Int.emod_eq_of_lt (by omega) (by omega), if_neg (by omega)]
      omega

end IntKind

end BorshWire
