import BorshWire.Text.Encoding

/-!
# UTF-8 there and back

`ofUtf8_of_utf8?`: reading what was written gives the text again. Every code point is one step of
the reader, whatever follows it.
-/

namespace BorshWire

namespace Encoding

/-! ## Single bytes -/

theorem toNat_byteOf {n : Nat} (h : n < 256) : (CodePoint.byteOf n).toNat = n := by
  unfold CodePoint.byteOf
  rw [UInt8.toNat_ofNat', Nat.mod_eq_of_lt h]

theorem isContinuation_byteOf {n : Nat} (h : n < 0x40) :
    isContinuation (CodePoint.byteOf (0x80 + n)) = true := by
  unfold isContinuation
  rw [toNat_byteOf (by omega), decide_eq_true_eq]
  omega

theorem tail_byteOf {n : Nat} (h : n < 0x40) : tail (CodePoint.byteOf (0x80 + n)) = n := by
  unfold tail
  rw [toNat_byteOf (by omega)]
  omega

theorem leadLength_two {n : Nat} (h₁ : 2 ≤ n) (h₂ : n < 0x20) :
    leadLength (CodePoint.byteOf (0xC0 + n)) = 2 := by
  unfold leadLength
  rw [toNat_byteOf (by omega)]
  rw [if_neg (by omega), if_neg (by omega), if_pos (by omega)]

theorem leadLength_three {n : Nat} (h : n < 0x10) :
    leadLength (CodePoint.byteOf (0xE0 + n)) = 3 := by
  unfold leadLength
  rw [toNat_byteOf (by omega)]
  rw [if_neg (by omega), if_neg (by omega), if_neg (by omega), if_pos (by omega)]

theorem leadLength_four {n : Nat} (h : n < 5) :
    leadLength (CodePoint.byteOf (0xF0 + n)) = 4 := by
  unfold leadLength
  rw [toNat_byteOf (by omega)]
  rw [if_neg (by omega), if_neg (by omega), if_neg (by omega), if_neg (by omega),
    if_pos (by omega)]

/-- A second byte is allowed if neither a shorter form nor a surrogate nor a number that is too
great would come out. -/
theorem allowsSecond_byteOf {l n : Nat} (hl : l < 256) (hn : n < 0x40)
    (hE0 : l = 0xE0 → 0x20 ≤ n) (hED : l = 0xED → n < 0x20) (hF0 : l = 0xF0 → 0x10 ≤ n)
    (hF4 : l = 0xF4 → n < 0x10) :
    allowsSecond false (CodePoint.byteOf l) (CodePoint.byteOf (0x80 + n)) = true := by
  unfold allowsSecond
  rw [isContinuation_byteOf hn, toNat_byteOf hl, toNat_byteOf (by omega)]
  simp only [Bool.and_eq_true, Bool.or_eq_true, bne_iff_ne, decide_eq_true_eq, Bool.or_false,
    true_and]
  refine ⟨⟨⟨?_, ?_⟩, ?_⟩, ?_⟩ <;> omega

/-! ## One code point -/

theorem ofNat_eq {c : CodePoint} {n : Nat} (h : n = c.val) : (Fin.ofNat _ n : CodePoint) = c := by
  rw [h]
  exact Fin.ofNat_val_eq_self c

theorem notSurrogate {c : CodePoint} (hc : c.isSurrogate = false) :
    c.val < 0xD800 ∨ 0xE000 ≤ c.val := by
  unfold CodePoint.isSurrogate CodePoint.isHighSurrogate CodePoint.isLowSurrogate at hc
  simp only [Bool.or_eq_false_iff, decide_eq_false_iff_not] at hc
  omega

theorem utf8Step_two {lead b : UInt8} {rest : List UInt8} (hlead : leadLength lead = 2)
    (hb : isContinuation b = true) :
    utf8Step false lead (b :: rest) =
      .ok (Fin.ofNat _ (lead.toNat % 0x20 * 0x40 + tail b), 2) := by
  unfold utf8Step
  rw [hlead]
  exact if_pos hb

theorem utf8Step_three {lead b c : UInt8} {rest : List UInt8} (hlead : leadLength lead = 3)
    (hb : allowsSecond false lead b = true) (hc : isContinuation c = true) :
    utf8Step false lead (b :: c :: rest) =
      .ok (Fin.ofNat _ (lead.toNat % 0x10 * 0x1000 + tail b * 0x40 + tail c), 3) := by
  unfold utf8Step
  rw [hlead]
  show (if !allowsSecond false lead b then _ else if isContinuation c then _ else _) = _
  rw [hb, hc]
  rfl

theorem utf8Step_four {lead b c d : UInt8} {rest : List UInt8} (hlead : leadLength lead = 4)
    (hb : allowsSecond false lead b = true) (hc : isContinuation c = true)
    (hd : isContinuation d = true) :
    utf8Step false lead (b :: c :: d :: rest) =
      .ok (Fin.ofNat _
        (lead.toNat % 0x08 * 0x40000 + tail b * 0x1000 + tail c * 0x40 + tail d), 4) := by
  unfold utf8Step
  rw [hlead]
  show (if !allowsSecond false lead b then _ else if !isContinuation c then _
    else if !isContinuation d then _ else _) = _
  rw [hb, hc, hd]
  rfl

theorem ok_ofNat_eq {c : CodePoint} {n count : Nat} (h : n = c.val) :
    (Except.ok (Fin.ofNat _ n, count) : Except (Nat × DecodeFault) (CodePoint × Nat)) =
      .ok (c, count) := by
  rw [ofNat_eq h]

theorem utf8Step_utf8 {c : CodePoint} (hc : c.isSurrogate = false) (rest : List UInt8) :
    ∃ lead more, c.utf8 = lead :: more ∧
      utf8Step false lead (more ++ rest) = .ok (c, more.length + 1) := by
  have hlt := c.isLt
  have hsurrogate := notSurrogate hc
  unfold CodePoint.utf8
  by_cases h₁ : c.val < 0x80
  · refine ⟨_, [], if_pos h₁, ?_⟩
    have hlead : leadLength (CodePoint.byteOf c.val) = 1 := by
      unfold leadLength
      rw [toNat_byteOf (by omega), if_pos h₁]
    unfold utf8Step
    rw [hlead]
    exact ok_ofNat_eq (toNat_byteOf (by omega))
  rw [if_neg h₁]
  by_cases h₂ : c.val < 0x800
  · refine ⟨_, _, if_pos h₂, ?_⟩
    refine (utf8Step_two (leadLength_two (by omega) (by omega))
      (isContinuation_byteOf (by omega))).trans (ok_ofNat_eq ?_)
    rw [tail_byteOf (by omega), toNat_byteOf (by omega)]
    omega
  rw [if_neg h₂]
  by_cases h₃ : c.val < 0x10000
  · refine ⟨_, _, if_pos h₃, ?_⟩
    refine (utf8Step_three (leadLength_three (by omega))
      (allowsSecond_byteOf (by omega) (by omega) (by omega) (by omega) (by omega) (by omega))
      (isContinuation_byteOf (by omega))).trans (ok_ofNat_eq ?_)
    rw [tail_byteOf (by omega), tail_byteOf (by omega), toNat_byteOf (by omega)]
    omega
  · refine ⟨_, _, if_neg h₃, ?_⟩
    refine (utf8Step_four (leadLength_four (by omega))
      (allowsSecond_byteOf (by omega) (by omega) (by omega) (by omega) (by omega) (by omega))
      (isContinuation_byteOf (by omega)) (isContinuation_byteOf (by omega))).trans (ok_ofNat_eq ?_)
    rw [tail_byteOf (by omega), tail_byteOf (by omega), tail_byteOf (by omega),
      toNat_byteOf (by omega)]
    omega

/-! ## Whole texts -/

/-- Bytes of a code point already read are passed over. -/
theorem decodeUtf8_skip (surrogates : Bool) (position : Nat) (passed rest : List UInt8) :
    decodeUtf8 surrogates position passed.length (passed ++ rest) =
      decodeUtf8 surrogates (position + passed.length) 0 rest := by
  induction passed generalizing position with
  | nil => rfl
  | cons b passed ih =>
    rw [List.length_cons, List.cons_append, decodeUtf8, ih]
    congr 1
    omega

theorem decodeUtf8_utf8 {t : Text} (ht : t.any CodePoint.isSurrogate = false) (position : Nat) :
    decodeUtf8 false position 0 (t.flatMap CodePoint.utf8) = .ok t := by
  induction t generalizing position with
  | nil => rfl
  | cons c t ih =>
    simp only [List.any_cons, Bool.or_eq_false_iff] at ht
    obtain ⟨lead, more, hutf8, hstep⟩ := utf8Step_utf8 ht.1 (t.flatMap CodePoint.utf8)
    rw [List.flatMap_cons, hutf8, List.cons_append, decodeUtf8, hstep]
    simp only [Nat.add_sub_cancel]
    rw [decodeUtf8_skip, ih ht.2]
    rfl

end Encoding

/-- What is written of a text reads as the text. -/
theorem Text.ofUtf8_of_utf8? {t : Text} {data : List UInt8} (h : t.utf8? = some data) :
    Text.ofUtf8 data = .ok t := by
  unfold Text.utf8? at h
  split at h
  · cases h
  · rename_i ht
    obtain rfl := Option.some.inj h
    exact Encoding.decodeUtf8_utf8 (Bool.eq_false_iff.mpr ht) 0

end BorshWire
