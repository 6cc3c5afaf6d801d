import BorshWire.ByteText.Codec

/-!
# When a checksummed text is read

`parse_eq_ok_iff`: a checksummed text is read exactly if it passes the checks, which are listed here
side by side (`Accepted`), and its words hold whole bytes.
-/

namespace BorshWire

namespace Bech32

/-- The checks that a text of these words passes under a human-readable part. -/
structure Accepted (variant : Bech32Variant) (hrp : Text) (maxLength : Int) (t : Text)
    (words : List Word) : Prop where
  length_le : (t.length : Int) ≤ maxLength
  one_case : t.isLower = true ∨ t.isUpper = true
  hrp_ne_nil : hrp ≠ []
  hrp_visible : ∀ c ∈ hrp, 33 ≤ c.val ∧ c.val ≤ 126
  split : ∃ tail, splitLast t.lower = some (hrp, tail) ∧ checksumLength ≤ tail.length ∧
    wordsOf tail = .ok words
  valid : polymod (expandHrp hrp ++ words.map (·.toNat)) = target variant

theorem check_eq_ok_iff {ε α : Type} {p : Prop} [Decidable p] {err : ε} {next : PUnit → Except ε α}
    {a : α} :
    (if p then (throw err : Except ε PUnit) >>= next else next ⟨⟩) = .ok a ↔
      ¬p ∧ next ⟨⟩ = .ok a := by
  by_cases hp : p
  · rw [if_pos hp]
    exact ⟨nofun, fun h => absurd hp h.1⟩
  · rw [if_neg hp]
    exact ⟨fun h => ⟨hp, h⟩, fun h => h.2⟩

theorem not_mixed_iff {t : Text} :
    ¬(!t.isLower && !t.isUpper) = true ↔ t.isLower = true ∨ t.isUpper = true := by
  cases t.isLower <;> cases t.isUpper <;> decide

theorem not_hidden_iff {hrp : Text} :
    ¬(hrp.any fun c => decide (c.val < 33 ∨ 126 < c.val)) = true ↔
      ∀ c ∈ hrp, 33 ≤ c.val ∧ c.val ≤ 126 := by
  rw [List.any_eq_true, not_exists]
  refine forall_congr' fun c => ?_
  rw [not_and, decide_eq_true_iff, not_or, Nat.not_lt, Nat.not_lt]

/-- A text is read exactly if it is accepted and its words hold whole bytes. -/
theorem parse_eq_ok_iff {variant : Bech32Variant} {hrp t : Text} {maxLength : Int}
    {data : List UInt8} :
    parse variant hrp maxLength t = .ok data ↔
      ∃ words, Accepted variant hrp maxLength t words ∧
        bytesOfWords? (words.take (words.length - checksumLength)) = some data := by
  unfold parse
  rw [check_eq_ok_iff, check_eq_ok_iff, not_mixed_iff, Int.not_lt]
  dsimp only
  cases hsplit : splitLast t.lower with
  | none =>
    refine ⟨fun h => absurd h.2.2 nofun, fun ⟨words, h, _⟩ => ?_⟩
    obtain ⟨tail, htail, _⟩ := h.split
    rw [hsplit] at htail
    cases htail
  | some parts =>
    obtain ⟨found, tail⟩ := parts
    dsimp only
    rw [check_eq_ok_iff, check_eq_ok_iff, check_eq_ok_iff, not_hidden_iff, Nat.not_lt,
      List.isEmpty_iff]
    cases hwords : wordsOf tail with
    | error c =>
      refine ⟨fun h => absurd h.2.2.2.2.2 nofun, fun ⟨words, h, _⟩ => ?_⟩
      obtain ⟨tail', htail, _, hwords'⟩ := h.split
      rw [hsplit] at htail
      obtain ⟨_, rfl⟩ := Prod.mk.inj (Option.some.inj htail)
      rw [hwords] at hwords'
      cases hwords'
    | ok words =>
      show _ ∧ _ ∧ _ ∧ _ ∧ _ ∧ (if _ then _ else _) = _ ↔ _
      rw [check_eq_ok_iff, check_eq_ok_iff, ne_eq, Classical.not_not, ne_eq, Classical.not_not]
      constructor
      · rintro ⟨hlength, hcase, hne, hvisible, hlong, hvalid, rfl, hdata⟩
        refine ⟨words, ⟨hlength, hcase, hne, hvisible, ⟨tail, hsplit, hlong, hwords⟩, hvalid⟩, ?_⟩
        split at hdata
        · rename_i d hd
          rw [hd, Except.ok.inj hdata]
        · cases hdata
      · rintro ⟨words', h, hdata⟩
        obtain ⟨tail', htail, hlong, hwords'⟩ := h.split
        rw [hsplit] at htail
        obtain ⟨rfl, rfl⟩ := Prod.mk.inj (Option.some.inj htail)
        rw [hwords] at hwords'
        obtain rfl := Except.ok.inj hwords'
        refine ⟨h.length_le, h.one_case, h.hrp_ne_nil, h.hrp_visible, hlong, h.valid, rfl, ?_⟩
        rw [hdata]
        rfl

end Bech32

end BorshWire
