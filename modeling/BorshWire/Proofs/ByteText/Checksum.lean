import BorshWire.ByteText.Bech32

/-!
# The checksum comes to its target

`polymod_checksum`: with its six words at the end a text has a valid checksum, and
`eq_checksum_of_polymod`: no other six words make it valid. A step of the checksum is linear in
exclusive or. Six words of five bits, read from nothing, are put together into thirty bits without
anything shifted out, so in place of six zeros they change the result by just these bits
(`foldl_step_xor`); and the words are cut from the bits that are to be put in, and these bits from
the words.
-/

namespace BorshWire

namespace Bech32

/-! ## Steps are linear -/

theorem xor_xor_xor_comm (a b c d : BitVec 30) : a ^^^ b ^^^ (c ^^^ d) = a ^^^ c ^^^ (b ^^^ d) := by
  ac_rfl

theorem feedback_xor (a b : BitVec 30) : feedback (a ^^^ b) = feedback a ^^^ feedback b := by
  have hfold : ∀ (gens : List (BitVec 30 × Nat)) (s t : BitVec 30),
      gens.foldl (fun sum g => if (a ^^^ b).getLsbD g.2 then sum ^^^ g.1 else sum) (s ^^^ t) =
        gens.foldl (fun sum g => if a.getLsbD g.2 then sum ^^^ g.1 else sum) s ^^^
          gens.foldl (fun sum g => if b.getLsbD g.2 then sum ^^^ g.1 else sum) t := by
    intro gens
    induction gens with
    | nil => exact fun _ _ => rfl
    | cons g rest ih =>
      intro s t
      simp only [List.foldl_cons]
      rw [← ih, BitVec.getLsbD_xor]
      congr 1
      cases a.getLsbD g.2 <;> cases b.getLsbD g.2
      · rfl
      · exact BitVec.xor_assoc s t g.1
      · show s ^^^ t ^^^ g.1 = s ^^^ g.1 ^^^ t
        ac_rfl
      · show s ^^^ t = s ^^^ g.1 ^^^ (t ^^^ g.1)
        rw [xor_xor_xor_comm, BitVec.xor_self, BitVec.xor_zero]
  exact hfold _ 0 0

theorem step_xor (a b : BitVec 30) (value : Nat) :
    step (a ^^^ b) value = step a 0 ^^^ step b value := by
  unfold step
  rw [feedback_xor, BitVec.shiftLeft_xor_distrib, BitVec.xor_zero]
  ac_rfl

/-! ## Words put together -/

/-- Only the lowest bits are set. -/
def Below (width : Nat) (check : BitVec 30) : Prop := ∀ i, width ≤ i → check.getLsbD i = false

theorem feedback_of_below {check : BitVec 30} (h : Below 25 check) : feedback check = 0#30 := by
  have hfold : ∀ gens : List (BitVec 30 × Nat), (∀ g ∈ gens, check.getLsbD g.2 = false) →
      gens.foldl (fun sum g => if check.getLsbD g.2 then sum ^^^ g.1 else sum) 0#30 = 0#30 := by
    intro gens hgens
    induction gens with
    | nil => rfl
    | cons g rest ih =>
      rw [List.foldl_cons, hgens g List.mem_cons_self, if_neg Bool.false_ne_true]
      exact ih fun g hg => hgens g (List.mem_cons_of_mem _ hg)
  exact hfold _ fun g hg => h g.2 (List.le_snd_of_mem_zipIdx hg)

/-- Bits with words put behind them. -/
def absorb (check : BitVec 30) (words : List Word) : BitVec 30 :=
  words.foldl (fun sum w => sum <<< 5 ^^^ w.setWidth 30) check

theorem step_of_below {check : BitVec 30} (h : Below 25 check) (w : Word) :
    step check w.toNat = check <<< 5 ^^^ w.setWidth 30 := by
  rw [step, feedback_of_below h, BitVec.xor_zero, BitVec.ofNat_toNat]

theorem below_absorb {width : Nat} {check : BitVec 30} (h : Below width check) (w : Word) :
    Below (width + 5) (check <<< 5 ^^^ w.setWidth 30) := by
  intro i hi
  have hw : w.getLsbD i = false := BitVec.getLsbD_of_ge w i (by omega)
  rw [BitVec.getLsbD_xor, BitVec.getLsbD_shiftLeft, BitVec.getLsbD_setWidth, h (i - 5) (by omega), hw]
  simp

/-- Words in place of zeros change the checksum by the words put together, if nothing is shifted
out. -/
theorem foldl_step_xor (words : List Word) (a : BitVec 30) {b : BitVec 30} {width : Nat}
    (h : Below width b) (hroom : width + 5 * words.length ≤ 30) :
    (words.map (·.toNat)).foldl step (a ^^^ b) =
      (List.replicate words.length 0).foldl step a ^^^ absorb b words := by
  induction words generalizing a b width with
  | nil => rfl
  | cons w rest ih =>
    rw [List.length_cons] at hroom
    have hb : Below 25 b := fun i hi => h i (by omega)
    rw [List.map_cons, List.foldl_cons, step_xor, step_of_below hb,
      ih _ (below_absorb h w) (by omega)]
    rfl

/-! ## Words cut from bits -/

/-- The lowest bits in groups of five, highest first. -/
def digits (count : Nat) (check : BitVec 30) : List Word :=
  (List.range count).map fun i => (check >>> (5 * (count - 1 - i))).setWidth 5

theorem digits_succ (count : Nat) (check : BitVec 30) :
    digits (count + 1) check = (check >>> (5 * count)).setWidth 5 :: digits count check := by
  unfold digits
  rw [List.range_succ_eq_map, List.map_cons, List.map_map]
  congr 1
  apply List.map_congr_left
  intro i _
  show (check >>> (5 * (count + 1 - 1 - (i + 1)))).setWidth 5 = _
  congr 3
  omega

theorem shift_xor_low (check : BitVec 30) :
    (check >>> 5) <<< 5 ^^^ (check.setWidth 5).setWidth 30 = check := by
  apply BitVec.eq_of_getLsbD_eq
  intro i hi
  simp only [BitVec.getLsbD_xor, BitVec.getLsbD_shiftLeft, BitVec.getLsbD_ushiftRight,
    BitVec.getLsbD_setWidth]
  by_cases hlow : i < 5
  · simp [hlow, hi]
  · simp [hlow, hi, Nat.add_sub_cancel' (Nat.not_lt.mp hlow)]

theorem absorb_digits (count : Nat) (check : BitVec 30) :
    absorb (check >>> (5 * count)) (digits count check) = check := by
  induction count with
  | zero => exact BitVec.ushiftRight_zero check
  | succ count ih =>
    have hshift : check >>> (5 * (count + 1)) = check >>> (5 * count) >>> 5 :=
      BitVec.shiftRight_add check (5 * count) 5
    rw [digits_succ, hshift]
    show absorb ((check >>> (5 * count) >>> 5) <<< 5 ^^^ _) (digits count check) = check
    rw [shift_xor_low, ih]

theorem absorb_digits_checksumLength (check : BitVec 30) :
    absorb 0#30 (digits checksumLength check) = check := by
  have hzero : check >>> (5 * checksumLength) = 0#30 := BitVec.ushiftRight_eq_zero (by decide)
  rw [← hzero]
  exact absorb_digits checksumLength check

/-- A word put behind bits of which none is shifted out is the lowest group, and the bits are above
it. -/
theorem cut_absorbed {check : BitVec 30} (h : Below 25 check) (w : Word) :
    (check <<< 5 ^^^ w.setWidth 30) >>> 5 = check ∧
      (check <<< 5 ^^^ w.setWidth 30).setWidth 5 = w := by
  constructor
  · apply BitVec.eq_of_getLsbD_eq
    intro i hi
    by_cases hroom : i < 25
    · simp [hi, show 5 + i < 30 by omega]
    · simp [h i (by omega), show ¬5 + i < 30 by omega]
  · apply BitVec.eq_of_getLsbD_eq
    intro i hi
    simp [hi]

/-- Words put behind bits are cut off again, if nothing is shifted out. -/
theorem digits_absorb (words : List Word) {check : BitVec 30} {width : Nat}
    (h : Below width check) (hroom : width + 5 * words.length ≤ 30) :
    absorb check words >>> (5 * words.length) = check ∧
      digits words.length (absorb check words) = words := by
  induction words generalizing check width with
  | nil => exact ⟨BitVec.ushiftRight_zero check, rfl⟩
  | cons w rest ih =>
    rw [List.length_cons] at hroom ⊢
    have hbelow : Below 25 check := fun i hi => h i (by omega)
    obtain ⟨hhigh, hlow⟩ := cut_absorbed hbelow w
    obtain ⟨hshift, hdigits⟩ := ih (below_absorb h w) (by omega)
    show absorb (check <<< 5 ^^^ w.setWidth 30) rest >>> (5 * (rest.length + 1)) = check ∧
      digits (rest.length + 1) (absorb (check <<< 5 ^^^ w.setWidth 30) rest) = w :: rest
    rw [digits_succ, hshift, hdigits, hlow]
    refine ⟨?_, rfl⟩
    rw [Nat.mul_succ, BitVec.shiftRight_add, hshift, hhigh]

/-! ## Valid checksums -/

/-- The checksum of values and six words, in terms of that of the values and six zeros. -/
theorem polymod_append (values : List Nat) {words : List Word}
    (h : words.length = checksumLength) :
    polymod (values ++ words.map (·.toNat)) =
      polymod (values ++ List.replicate checksumLength 0) ^^^ absorb 0#30 words := by
  have hzero : Below 0 0#30 := fun i _ => BitVec.getLsbD_zero
  have hfold := foldl_step_xor words (polymod values) hzero (by rw [h]; decide)
  rw [BitVec.xor_zero, h] at hfold
  unfold polymod
  rw [List.foldl_append, List.foldl_append]
  exact hfold

/-- With the checksum behind them, the words of a text come to the target. -/
theorem polymod_checksum (variant : Bech32Variant) (hrp : Text) (words : List Word) :
    polymod (expandHrp hrp ++ (words ++ checksum variant hrp words).map (·.toNat)) =
      target variant := by
  have hchecksum : checksum variant hrp words = digits checksumLength
      (polymod (expandHrp hrp ++ words.map (·.toNat) ++ List.replicate checksumLength 0) ^^^
        target variant) := rfl
  rw [List.map_append, ← List.append_assoc, polymod_append _ (length_checksum variant hrp words),
    hchecksum, absorb_digits_checksumLength, ← BitVec.xor_assoc, BitVec.xor_self, BitVec.zero_xor]

/-- The checksum is the only six words that make a text come to its target. -/
theorem eq_checksum_of_polymod {variant : Bech32Variant} {hrp : Text} {words check : List Word}
    (hlength : check.length = checksumLength)
    (h : polymod (expandHrp hrp ++ (words ++ check).map (·.toNat)) = target variant) :
    check = checksum variant hrp words := by
  rw [List.map_append, ← List.append_assoc, polymod_append _ hlength] at h
  have hzero : Below 0 0#30 := fun i _ => BitVec.getLsbD_zero
  have habsorb : absorb 0#30 check =
      polymod (expandHrp hrp ++ words.map (·.toNat) ++ List.replicate checksumLength 0) ^^^
        target variant := by
    rw [← h, ← BitVec.xor_assoc, BitVec.xor_self, BitVec.zero_xor]
  calc check = digits check.length (absorb 0#30 check) :=
        (digits_absorb check hzero (by rw [hlength]; decide)).2.symm
    _ = checksum variant hrp words := by rw [hlength, habsorb]; rfl

end Bech32

end BorshWire
