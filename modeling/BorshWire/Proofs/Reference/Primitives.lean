import BorshWire.Encode.Walk
import BorshWire.Proofs.Bytes.Utf8
import BorshWire.Proofs.Reference.Typed

/-!
# Primitive data as they are written

The low bytes, the two's complement and the UTF-8 of the textbook are those of the writer.
-/

namespace BorshWire

namespace Borsh

theorem lowBytes_eq (width n : Nat) : lowBytes width n = littleEndian width n := by
  induction width generalizing n with
  | zero => rfl
  | succ width ih =>
    have hfirst : UInt8.ofNat (n / twoPow (8 * 0)) = UInt8.ofNat (n % 256) := by
      show UInt8.ofNat (n / 1) = _
      rw [Nat.div_one]
      exact (UInt8.ofNat_mod_size (x := n)).symm
    have hrest : (fun i => UInt8.ofNat (n / twoPow (8 * (i + 1)))) =
        fun i => UInt8.ofNat (n / 256 / twoPow (8 * i)) := by
      funext i
      rw [Nat.mul_succ, Nat.add_comm, twoPow_add, Nat.div_div_eq_div_mul]
      rfl
    rw [littleEndian, ← ih, lowBytes, List.range_succ_eq_map, List.map_cons, List.map_map, hfirst]
    show _ :: (List.range width).map (fun i => UInt8.ofNat (n / twoPow (8 * (i + 1)))) = _
    rw [hrest]
    rfl

theorem integer_eq (kind : IntKind) (n : Int) : integer kind n = kind.range.bytes n := by
  unfold integer
  rw [lowBytes_eq, BitVec.toNat_ofInt, IntRange.bytes, IntKind.width_range]
  rfl

theorem utf8EncodeChar_eq {c : CodePoint} (h : c.isSurrogate = false) :
    String.utf8EncodeChar (Char.ofNat c.val) = c.utf8 := by
  have hlt := c.isLt
  have hvalid : c.val.isValidChar := by
    rcases Encoding.notSurrogate h with hlow | hhigh
    · exact .inl hlow
    · exact .inr ⟨by omega, hlt⟩
  have hchar : (Char.ofNat c.val).val.toNat = c.val := by
    unfold Char.ofNat
    rw [dif_pos hvalid]
    rfl
  unfold String.utf8EncodeChar CodePoint.utf8 CodePoint.byteOf
  dsimp only
  rw [hchar]
  by_cases h₁ : c.val < 0x80
  · rw [if_pos (by omega), if_pos h₁]
  rw [if_neg (by omega), if_neg h₁]
  by_cases h₂ : c.val < 0x800
  · rw [if_pos (by omega), if_pos h₂, Nat.mod_eq_of_lt (show c.val / 64 < 0x20 by omega),
      Nat.add_comm _ 0xC0, Nat.add_comm _ 0x80]
  rw [if_neg (by omega), if_neg h₂]
  by_cases h₃ : c.val < 0x10000
  · rw [if_pos (by omega), if_pos h₃, Nat.mod_eq_of_lt (show c.val / 4096 < 0x10 by omega),
      Nat.add_comm _ 0xE0, Nat.add_comm _ 0x80, Nat.add_comm _ 0x80]
  · rw [if_neg (by omega), if_neg h₃, Nat.mod_eq_of_lt (show c.val / 262144 < 0x08 by omega),
      Nat.add_comm _ 0xF0, Nat.add_comm _ 0x80, Nat.add_comm _ 0x80, Nat.add_comm _ 0x80]

theorem utf8?_eq {t : Text} (h : ∀ c ∈ t, c.isSurrogate = false) : t.utf8? = some (utf8 t) := by
  have hany : ¬t.any CodePoint.isSurrogate = true := by
    rw [List.any_eq_true]
    rintro ⟨c, hc, hs⟩
    exact absurd hs (Bool.eq_false_iff.mp (h c hc))
  have hutf8 : utf8 t = t.flatMap CodePoint.utf8 :=
    List.flatMap_congr fun c hc => utf8EncodeChar_eq (h c hc)
  rw [Text.utf8?, if_neg hany, hutf8]

theorem eq_utf8_of_utf8? {t : Text} {data : List UInt8} (h : t.utf8? = some data) :
    data = utf8 t := by
  have hwhole : ∀ c ∈ t, c.isSurrogate = false := by
    intro c hc
    by_contra hs
    have hany : t.any CodePoint.isSurrogate = true :=
      List.any_eq_true.mpr ⟨c, hc, (Bool.not_eq_false _).mp hs⟩
    rw [Text.utf8?, if_pos hany] at h
    cases h
  exact Option.some.inj (h.symm.trans (utf8?_eq hwhole))

end Borsh

theorem IntKind.contains_iff_holds {kind : IntKind} {n : Int} :
    kind.range.contains n = true ↔ kind.Holds n := by
  obtain ⟨m, hm⟩ : ∃ m, kind.bits = m + 1 := by
    obtain ⟨signed, width⟩ := kind
    cases width <;> exact ⟨_, rfl⟩
  have htwo : twoPow kind.bits = twoPow m * 2 := by
    rw [hm, twoPow_add]
    rfl
  have hrange : kind.range.signed = kind.signed ∧ kind.range.bits = kind.bits := ⟨rfl, rfl⟩
  unfold Holds
  rw [htwo, hm, Nat.add_sub_cancel]
  unfold IntRange.contains
  rw [decide_eq_true_eq, IntRange.least, IntRange.greatest, hrange.1, hrange.2, htwo]
  cases hs : kind.signed with
  | false =>
    simp only [Bool.false_eq_true, if_false]
    omega
  | true =>
    simp only [if_true]
    omega

theorem IntKind.contains_of_holds {kind : IntKind} {n : Int} (h : kind.Holds n) :
    kind.range.contains n = true := contains_iff_holds.mpr h

theorem IntKind.natAbs_lt_of_holds {kind : IntKind} {n : Int} (h : kind.Holds n) :
    n.natAbs < tenPow 39 := by
  have hbits : kind.bits ≤ 128 := by
    obtain ⟨signed, width⟩ := kind
    cases width <;> exact Nat.le_of_ble_eq_true rfl
  have hfull : twoPow kind.bits ≤ twoPow 128 := twoPow_le hbits
  have hhalf : twoPow (kind.bits - 1) ≤ twoPow 128 :=
    twoPow_le (Nat.le_trans (Nat.sub_le _ _) hbits)
  have hdigits : twoPow 128 < tenPow 39 := by decide
  unfold Holds at h
  split at h <;> omega

end BorshWire
