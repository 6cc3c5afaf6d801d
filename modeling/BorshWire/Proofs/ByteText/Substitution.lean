import BorshWire.Proofs.ByteText.Canonical

/-!
# One wrong character is always noticed

`differences_ne_one_of_parse`: of texts that are read under one checksummed display no two differ, in
lower case, in exactly one character, however long they are. A step of the checksum forgets nothing
(`step_left_injective`): the five bits that are shifted out come back through generators whose lowest
bits are independent. So two checksums that have once become different stay different while the same
words follow, and a wrong word makes them different.
-/

namespace BorshWire

/-! ## Places that differ -/

section Differences

variable {α β : Type} [DecidableEq α] [DecidableEq β]

/-- The number of places at which two lists differ, as far as both go. -/
def differences (s t : List α) : Nat := (s.zip t).countP fun p => decide (p.1 ≠ p.2)

theorem differences_cons (a b : α) (s t : List α) :
    differences (a :: s) (b :: t) = differences s t + if a = b then 0 else 1 := by
  simp [differences, List.countP_cons]

theorem differences_append_left (front s t : List α) :
    differences (front ++ s) (front ++ t) = differences s t := by
  induction front with
  | nil => rfl
  | cons a front ih =>
    rw [List.cons_append, List.cons_append, differences_cons, ih, if_pos rfl, Nat.add_zero]

/-- An injective image differs at the same places. -/
theorem differences_map {f : α → β} (hf : Function.Injective f) (s t : List α) :
    differences (s.map f) (t.map f) = differences s t := by
  induction s generalizing t with
  | nil => rfl
  | cons a s ih =>
    cases t with
    | nil => rfl
    | cons b t =>
      rw [List.map_cons, List.map_cons, differences_cons, differences_cons, ih]
      simp only [hf.eq_iff]

theorem eq_of_differences_eq_zero {s t : List α} (hlength : s.length = t.length)
    (h : differences s t = 0) : s = t := by
  induction s generalizing t with
  | nil => exact (List.length_eq_zero_iff.mp hlength.symm).symm
  | cons a s ih =>
    cases t with
    | nil => cases hlength
    | cons b t =>
      rw [differences_cons] at h
      by_cases hab : a = b
      · rw [if_pos hab] at h
        rw [hab, ih (Nat.succ.inj hlength) h]
      · rw [if_neg hab] at h
        cases h

/-- Where there is one difference, the lists are the same before and after it. -/
theorem exists_of_differences_eq_one {s t : List α} (hlength : s.length = t.length)
    (h : differences s t = 1) :
    ∃ front a b back, s = front ++ a :: back ∧ t = front ++ b :: back ∧ a ≠ b := by
  induction s generalizing t with
  | nil => cases h
  | cons a s ih =>
    cases t with
    | nil => cases h
    | cons b t =>
      rw [differences_cons] at h
      have hrest : s.length = t.length := Nat.succ.inj hlength
      by_cases hab : a = b
      · rw [if_pos hab] at h
        obtain ⟨front, c, d, back, rfl, rfl, hcd⟩ := ih hrest h
        exact ⟨a :: front, c, d, back, rfl, by rw [hab, List.cons_append], hcd⟩
      · rw [if_neg hab] at h
        obtain rfl := eq_of_differences_eq_zero hrest (Nat.succ.inj h)
        exact ⟨[], a, b, s, rfl, rfl, hab⟩

end Differences

namespace Bech32

/-! ## Steps forget nothing -/

/-- The lowest bits of the generators are independent: if nothing comes back there, nothing was
shifted out. -/
theorem below_of_feedback {check : BitVec 30} (h : (feedback check).setWidth 5 = 0#5) :
    Below 25 check := by
  have hgenerators : ∀ a b c d e : Bool,
      (((generators.zip [a, b, c, d, e]).foldl
        (fun sum g => if g.2 then sum ^^^ g.1 else sum) 0#30).setWidth 5 = 0#5) →
      a = false ∧ b = false ∧ c = false ∧ d = false ∧ e = false := by decide
  obtain ⟨h25, h26, h27, h28, h29⟩ := hgenerators _ _ _ _ _ h
  intro i hi
  by_cases hlt : i < 30
  · have htop : i = 25 ∨ i = 26 ∨ i = 27 ∨ i = 28 ∨ i = 29 := by omega
    rcases htop with rfl | rfl | rfl | rfl | rfl
    exacts [h25, h26, h27, h28, h29]
  · exact BitVec.getLsbD_of_ge check i (Nat.not_lt.mp hlt)

/-- Only the checksum zero goes to zero. -/
theorem eq_zero_of_step {check : BitVec 30} (h : step check 0 = 0#30) : check = 0#30 := by
  have hsum : check <<< 5 ^^^ feedback check = 0#30 := by
    rw [← h, step, BitVec.xor_zero]
  have hlow : (feedback check).setWidth 5 = 0#5 := by
    apply BitVec.eq_of_getLsbD_eq
    intro i hi
    have hbit := congrArg (BitVec.getLsbD · i) hsum
    simpa [hi, show i < 30 by omega] using hbit
  have hbelow := below_of_feedback hlow
  rw [feedback_of_below hbelow, BitVec.xor_zero] at hsum
  apply BitVec.eq_of_getLsbD_eq
  intro i hi
  rw [BitVec.getLsbD_zero]
  by_cases hroom : i < 25
  · have hbit := congrArg (BitVec.getLsbD · (i + 5)) hsum
    simp only [BitVec.getLsbD_shiftLeft, BitVec.getLsbD_zero] at hbit
    simpa [show i + 5 < 30 by omega] using hbit
  · exact hbelow i (Nat.not_lt.mp hroom)

/-- Different checksums stay different when the same value is added. -/
theorem step_left_injective {a b : BitVec 30} {value : Nat} (h : step a value = step b value) :
    a = b := by
  have hzero : step (a ^^^ b) 0 = 0#30 := by
    have hshift : ∀ check, step check value = step check 0 ^^^ BitVec.ofNat 30 value := by
      intro check
      rw [step, step, BitVec.xor_zero]
      ac_rfl
    rw [hshift a, hshift b, BitVec.xor_left_inj] at h
    rw [step_xor, h, BitVec.xor_self]
  exact BitVec.xor_eq_zero_iff.mp (eq_zero_of_step hzero)

theorem step_right_injective {check : BitVec 30} {v w : Word}
    (h : step check v.toNat = step check w.toNat) : v = w := by
  unfold step at h
  rw [BitVec.xor_left_inj, BitVec.xor_right_inj, BitVec.ofNat_toNat, BitVec.ofNat_toNat] at h
  have hback : ∀ u : Word, (u.setWidth 30).setWidth 5 = u := by
    intro u
    rw [BitVec.setWidth_setWidth_of_le u (by decide), BitVec.setWidth_eq]
  rw [← hback v, h, hback w]

theorem foldl_step_injective {a b : BitVec 30} (values : List Nat)
    (h : values.foldl step a = values.foldl step b) : a = b := by
  induction values generalizing a b with
  | nil => exact h
  | cons value rest ih => exact step_left_injective (ih h)

/-- Words that differ in one place only have different checksums, whatever stands before them. -/
theorem eq_of_polymod {values : List Nat} {front back : List Word} {v w : Word}
    (h : polymod (values ++ (front ++ v :: back).map (·.toNat)) =
      polymod (values ++ (front ++ w :: back).map (·.toNat))) : v = w := by
  simp only [polymod, List.map_append, List.map_cons, List.foldl_append, List.foldl_cons] at h
  exact step_right_injective (foldl_step_injective _ h)

/-! ## Texts -/

theorem charOf_injective : Function.Injective charOf := by
  intro v w h
  have hword := wordOf?_charOf v
  rw [h, wordOf?_charOf w] at hword
  exact (Option.some.inj hword).symm

theorem Accepted.lower_eq_words {variant : Bech32Variant} {hrp t : Text} {maxLength : Int}
    {words : List Word} (h : Accepted variant hrp maxLength t words) :
    t.lower = hrp ++ 0x31 :: words.map charOf := by
  obtain ⟨tail, hsplit, _, hwords⟩ := h.split
  rw [(splitLast_eq_some_iff.mp hsplit).1, eq_map_charOf hwords]

/-- Accepted texts of the same length do not differ in one character. -/
theorem Accepted.differences_ne_one {variant : Bech32Variant} {hrp t t' : Text}
    {maxLength maxLength' : Int} {words words' : List Word}
    (h : Accepted variant hrp maxLength t words) (h' : Accepted variant hrp maxLength' t' words')
    (hlength : t.lower.length = t'.lower.length) : differences t.lower t'.lower ≠ 1 := by
  rw [h.lower_eq_words, h'.lower_eq_words] at hlength ⊢
  rw [differences_append_left, differences_cons, if_pos rfl, Nat.add_zero,
    differences_map charOf_injective]
  intro hone
  have hwords : words.length = words'.length := by simpa using hlength
  obtain ⟨front, v, w, back, rfl, rfl, hne⟩ := exists_of_differences_eq_one hwords hone
  exact hne (eq_of_polymod (h.valid.trans h'.valid.symm))

end Bech32

namespace ByteText

/-- Of texts that are read under one checksummed display no two are, in lower case, as long as one
another and different in exactly one character, whatever the length limits are. -/
theorem differences_ne_one_of_parse {variant : Bech32Variant} {hrp : Text} {nonempty : hrp ≠ []}
    {maxLength maxLength' : Int} {t t' : Text} {data data' : List UInt8}
    (h : parse (.checksummed variant hrp nonempty) maxLength t = .ok data)
    (h' : parse (.checksummed variant hrp nonempty) maxLength' t' = .ok data')
    (hlength : t.lower.length = t'.lower.length) : differences t.lower t'.lower ≠ 1 := by
  obtain ⟨words, haccepted, _⟩ := parse_checksummed_eq_ok_iff.mp h
  obtain ⟨words', haccepted', _⟩ := parse_checksummed_eq_ok_iff.mp h'
  exact haccepted.differences_ne_one haccepted' hlength

/-- Two addresses, the one in capital letters, whose bytes differ in one bit. -/
theorem differences_of_addresses :
    parse addressDisplay 90 "A1B1QRLSWFYQDVX" = .ok [0, 255, 7] ∧
      parse addressDisplay 15 "a1b1qrl3wxe0h8q" = .ok [0, 255, 23] ∧
      (Text.lower "A1B1QRLSWFYQDVX").length = (Text.lower "a1b1qrl3wxe0h8q").length ∧
      differences (Text.lower "A1B1QRLSWFYQDVX") (Text.lower "a1b1qrl3wxe0h8q") ≠ 1 := by
  have hrender : render addressDisplay [0, 255, 23] = "a1b1qrl3wxe0h8q" := by decide
  have hlower : Text.lower "a1b1qrl3wxe0h8q" = "a1b1qrl3wxe0h8q" := by
    rw [← hrender]
    exact Bech32.lower_render (by decide) _ _
  have hsmall : parse addressDisplay 15 "a1b1qrl3wxe0h8q" = .ok [0, 255, 23] :=
    checksummed_parses_iff.mpr (Bech32.parse_of_lower (by decide) (by decide)
      (.inl (decide_eq_true hlower)) (hlower.trans hrender.symm) (by decide))
  have hlength : (Text.lower "A1B1QRLSWFYQDVX").length = (Text.lower "a1b1qrl3wxe0h8q").length := by
    rw [lower_capitals, hlower]
    decide
  exact ⟨parse_capitals, hsmall, hlength, differences_ne_one_of_parse parse_capitals hsmall hlength⟩

end ByteText

end BorshWire
