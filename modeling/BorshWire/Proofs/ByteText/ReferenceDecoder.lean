import BorshWire.Proofs.ByteText.Canonical
import Mathlib.Data.Option.Basic

/-!
# Checksummed texts and the reference decoder

`parse_eq_ok_iff_decode?`: what a checksummed display reads within 90 characters is what the decoder
of BIP-173 reads, but for one character. Reading looks for invisible characters only after the text
has been put in lower case, the reference decoder before that, and the Kelvin sign becomes visible
in between: it has the lower case of the letter `K`, which may stand both in a human-readable part
and among the words (`decode?_eq_none_of_sign`).
-/

namespace BorshWire

namespace Bech32

/-- A visible ASCII character. -/
def IsVisible (c : CodePoint) : Prop := 33 ≤ c.val ∧ c.val ≤ 126

instance instDecidableIsVisible (c : CodePoint) : Decidable (IsVisible c) :=
  inferInstanceAs (Decidable (_ ∧ _))

theorem IsVisible.plain {c : CodePoint} (h : IsVisible c) : IsVisible c.plain := by
  rwa [CodePoint.plain_of_ne (by have hle := h.2; omega)]

/-- Where the last `1` of a text stands. -/
def lastSeparator? (t : Text) : Option Nat := (t.reverse.idxOf? 0x31).map (t.length - 1 - ·)

/-- The decoder that BIP-173 gives: all characters are looked at before anything is put in lower
case. It returns the human-readable part and the words before the checksum. -/
def decode? (variant : Bech32Variant) (t : Text) : Option (Text × List Word) := do
  guard (t.all fun c => decide (IsVisible c))
  guard (t.isLower ∨ t.isUpper)
  let low := t.lower
  let place ← lastSeparator? low
  guard (1 ≤ place ∧ place + 7 ≤ low.length ∧ low.length ≤ 90)
  let words ← (low.drop (place + 1)).mapM wordOf?
  guard (polymod (expandHrp (low.take place) ++ words.map (·.toNat)) = target variant)
  return (low.take place, words.take (words.length - checksumLength))

/-! ## What the reference decoder accepts -/

theorem lastSeparator?_eq_some_iff {t : Text} {place : Nat} :
    lastSeparator? t = some place ↔
      ∃ hrp tail, splitLast t = some (hrp, tail) ∧ hrp.length = place := by
  by_cases hmem : (0x31 : CodePoint) ∈ t
  · obtain ⟨hrp, tail, rfl, hlast⟩ := exists_last_of_mem hmem
    have hidx : (hrp ++ 0x31 :: tail).reverse.idxOf? 0x31 = some tail.length := by
      have hnone : tail.reverse.findIdx? (· == 0x31) = none :=
        List.idxOf?_eq_none_iff.mpr (mt List.mem_reverse.mp hlast)
      simp [List.idxOf?, List.findIdx?_append, hnone, List.findIdx?_cons]
    rw [lastSeparator?, hidx, splitLast_append hrp hlast]
    simp
  · have hnone : t.reverse.idxOf? 0x31 = none :=
      List.idxOf?_eq_none_iff.mpr (mt List.mem_reverse.mp hmem)
    simp [lastSeparator?, hnone, splitLast_of_not_mem hmem]

theorem mapM_wordOf?_eq_some_iff {t : Text} {words : List Word} :
    t.mapM wordOf? = some words ↔ wordsOf t = .ok words := by
  induction t generalizing words with
  | nil => simp [wordsOf, pure, eq_comm]
  | cons c rest ih =>
    cases hw : wordOf? c with
    | none => simp [wordsOf, hw]
    | some w =>
      cases hrest : wordsOf rest with
      | error d => 
        have : rest.mapM wordOf? = none := by
          rw [Option.eq_none_iff_forall_ne_some]
          intro ws h
          rw [ih, hrest] at h
          cases h
        simp [wordsOf, hw, hrest, this, Except.map]
      | ok ws => simp [wordsOf, hw, hrest, ih.mpr hrest, Except.map]

theorem isVisible_lower {t : Text} (h : ∀ c ∈ t, IsVisible c.plain) :
    t.lower.length = t.length ∧ ∀ d ∈ t.lower, IsVisible d := by
  rw [Text.lower_of_plain fun c hc => Nat.lt_of_le_of_lt (h c hc).2 (by decide)]
  refine ⟨List.length_map _, fun d hd => ?_⟩
  obtain ⟨c, hc, rfl⟩ := List.mem_map.mp hd
  have hvisible := h c hc
  unfold IsVisible at hvisible ⊢
  rw [CodePoint.val_lowerAscii]
  split <;> omega

theorem parts_of_splitLast {t hrp tail : Text} (h : splitLast t = some (hrp, tail)) :
    t.take hrp.length = hrp ∧ t.drop (hrp.length + 1) = tail ∧
      t.length = hrp.length + 1 + tail.length := by
  obtain ⟨rfl, -⟩ := splitLast_eq_some_iff.mp h
  refine ⟨by simp, by simp, ?_⟩
  rw [List.length_append, List.length_cons]
  omega

/-- The reference decoder accepts the visible texts that pass the checks side by side. -/
theorem decode?_eq_some_iff {variant : Bech32Variant} {t hrp : Text} {payload : List Word} :
    decode? variant t = some (hrp, payload) ↔
      (∀ c ∈ t, IsVisible c) ∧ ∃ words, Accepted variant hrp 90 t words ∧
        words.take (words.length - checksumLength) = payload := by
  simp only [decode?, Option.bind_eq_bind, Option.bind_eq_some_iff, Option.guard_eq_some',
    List.all_eq_true, decide_eq_true_eq]
  constructor
  · rintro ⟨_, hvisible, _, hcase, place, hplace, _, ⟨hfirst, hlong, hlength⟩, words, hwords, _,
      hvalid, hresult⟩
    obtain ⟨hrp', tail, hsplit, rfl⟩ := lastSeparator?_eq_some_iff.mp hplace
    obtain ⟨htake, hdrop, hparts⟩ := parts_of_splitLast hsplit
    rw [htake] at hvalid hresult
    rw [hdrop] at hwords
    obtain ⟨rfl, rfl⟩ := Prod.mk.inj (Option.some.inj hresult)
    obtain ⟨hsame, hlow⟩ := isVisible_lower fun c hc => (hvisible c hc).plain
    refine ⟨hvisible, words, ?_, rfl⟩
    exact {
      length_le := by omega
      one_case := hcase
      hrp_ne_nil := List.ne_nil_of_length_pos hfirst
      hrp_visible := fun c hc => hlow c (List.mem_of_mem_take (htake.symm ▸ hc))
      split := ⟨tail, hsplit, by rw [checksumLength]; omega, mapM_wordOf?_eq_some_iff.mp hwords⟩
      valid := hvalid }
  · rintro ⟨hvisible, words, haccepted, rfl⟩
    obtain ⟨tail, hsplit, hlong, hwords⟩ := haccepted.split
    obtain ⟨htake, hdrop, hparts⟩ := parts_of_splitLast hsplit
    have hplace := lastSeparator?_eq_some_iff.mpr ⟨hrp, tail, hsplit, rfl⟩
    have hsame := (isVisible_lower fun c hc => (hvisible c hc).plain).1
    have hlength := haccepted.length_le
    have hfirst : 1 ≤ hrp.length := List.length_pos_iff.mpr haccepted.hrp_ne_nil
    rw [checksumLength] at hlong
    refine ⟨(), hvisible, (), haccepted.one_case, hrp.length, hplace, (),
      ⟨hfirst, by omega, by omega⟩, words, ?_, (), ?_, ?_⟩
    · rw [hdrop]
      exact mapM_wordOf?_eq_some_iff.mpr hwords
    · rw [htake]
      exact haccepted.valid
    · rw [htake]
      rfl

theorem decode?_eq_none_of_mem {variant : Bech32Variant} {t : Text} {c : CodePoint} (hc : c ∈ t)
    (hhidden : ¬IsVisible c) : decode? variant t = none := by
  rw [Option.eq_none_iff_forall_ne_some]
  rintro ⟨hrp, payload⟩ hdecode
  exact hhidden ((decode?_eq_some_iff.mp hdecode).1 c hc)

/-! ## Kelvin signs -/

theorem plain_plain (c : CodePoint) : c.plain.plain = c.plain := by
  by_cases h : c.val = 0x212A
  · obtain rfl : c = 0x212A := Fin.ext h
    rfl
  · rw [CodePoint.plain_of_ne h, CodePoint.plain_of_ne h]

theorem isUpper_map_plain (t : Text) : Text.isUpper (t.map CodePoint.plain) = t.isUpper := by
  have hfixed : CodePoint.isUpperFixed ∘ CodePoint.plain = CodePoint.isUpperFixed := by
    funext c
    by_cases h : c.val = 0x212A
    · obtain rfl : c = 0x212A := Fin.ext h
      rfl
    · rw [Function.comp_apply, CodePoint.plain_of_ne h]
  rw [Text.isUpper, List.all_map, hfixed]
  rfl

/-- A text of visible characters, Kelvin signs apart, has the lower case of the text with letters
for the signs. -/
theorem lower_map_plain {t : Text} (h : ∀ c ∈ t, IsVisible c.plain) :
    Text.lower (t.map CodePoint.plain) = t.lower := by
  have hascii : ∀ c ∈ t, c.plain.val < 0x80 := fun c hc => Nat.lt_of_le_of_lt (h c hc).2 (by decide)
  rw [Text.lower_of_plain hascii, Text.lower_of_plain, List.map_map]
  · simp [plain_plain]
  · intro d hd
    obtain ⟨c, hc, rfl⟩ := List.mem_map.mp hd
    rw [plain_plain]
    exact hascii c hc

theorem isLower_map_plain {t : Text} (h : ∀ c ∈ t, IsVisible c.plain) :
    Text.isLower (t.map CodePoint.plain) = t.isLower := by
  have hchar : ∀ c : CodePoint, c.plain.lowerAscii = c.plain ↔ c.plain.lowerAscii = c := by
    intro c
    by_cases h : c.val = 0x212A
    · obtain rfl : c = 0x212A := Fin.ext h
      decide
    · rw [CodePoint.plain_of_ne h]
  have hlower := Text.lower_of_plain fun c hc => Nat.lt_of_le_of_lt (h c hc).2 (by decide)
  rw [Text.isLower, Text.isLower, lower_map_plain h, decide_eq_decide, hlower]
  have hid : t.map (fun c => c.plain.lowerAscii) = t ↔
      t.map (fun c => c.plain.lowerAscii) = t.map id := by rw [List.map_id]
  rw [hid, List.map_inj_left, List.map_inj_left]
  exact forall₂_congr fun c _ => hchar c

theorem Accepted.congr {variant : Bech32Variant} {t t' hrp : Text} {maxLength : Int}
    {words : List Word} (hlength : t'.length = t.length) (hcase : t'.isLower = t.isLower)
    (hupper : t'.isUpper = t.isUpper) (hlower : t'.lower = t.lower)
    (h : Accepted variant hrp maxLength t words) : Accepted variant hrp maxLength t' words where
  length_le := hlength ▸ h.length_le
  one_case := hcase ▸ hupper ▸ h.one_case
  hrp_ne_nil := h.hrp_ne_nil
  hrp_visible := h.hrp_visible
  split := hlower ▸ h.split
  valid := h.valid

theorem accepted_map_plain_iff {variant : Bech32Variant} {t hrp : Text} {maxLength : Int}
    {words : List Word} (h : ∀ c ∈ t, IsVisible c.plain) :
    Accepted variant hrp maxLength (t.map CodePoint.plain) words ↔
      Accepted variant hrp maxLength t words := by
  have hlength : (t.map CodePoint.plain).length = t.length := List.length_map _
  have hcase := isLower_map_plain h
  have hupper := isUpper_map_plain t
  have hlower := lower_map_plain h
  exact ⟨.congr hlength.symm hcase.symm hupper.symm hlower.symm, .congr hlength hcase hupper hlower⟩

theorem isVisible_charOf : ∀ w : Word, IsVisible (charOf w) := by decide

/-- Every text that passes the checks is of visible characters, Kelvin signs apart. -/
theorem Accepted.isVisible_plain {variant : Bech32Variant} {t hrp : Text} {maxLength : Int}
    {words : List Word} (h : Accepted variant hrp maxLength t words) :
    ∀ c ∈ t, IsVisible c.plain := by
  obtain ⟨tail, hsplit, _, hwords⟩ := h.split
  have hlow : ∀ d ∈ t.lower, IsVisible d := by
    rw [(splitLast_eq_some_iff.mp hsplit).1, eq_map_charOf hwords]
    intro d hd
    rcases List.mem_append.mp hd with hhrp | htail
    · exact h.hrp_visible d hhrp
    · rcases List.mem_cons.mp htail with rfl | hword
      · decide
      · obtain ⟨w, _, rfl⟩ := List.mem_map.mp hword
        exact isVisible_charOf w
  have hascii : ∀ c ∈ t, c.plain.val < 0x80 :=
    Text.plain_of_lower fun d hd => Nat.lt_of_le_of_lt (hlow d hd).2 (by decide)
  intro c hc
  rw [Text.lower_of_plain hascii] at hlow
  have hvisible := hlow _ (List.mem_map_of_mem hc)
  unfold IsVisible at hvisible ⊢
  rw [CodePoint.val_lowerAscii] at hvisible
  split at hvisible <;> omega

end Bech32

namespace ByteText

/-- What is read is what the reference decoder reads with letters for Kelvin signs. -/
theorem parse_eq_ok_iff_plain {variant : Bech32Variant} {hrp t : Text} {nonempty : hrp ≠ []}
    {data : List UInt8} :
    parse (.checksummed variant hrp nonempty) 90 t = .ok data ↔
      ∃ words, Bech32.decode? variant (t.map CodePoint.plain) = some (hrp, words) ∧
        Bech32.bytesOfWords? words = some data := by
  rw [parse_checksummed_eq_ok_iff]
  constructor
  · rintro ⟨words, haccepted, hdata⟩
    have hvisible := haccepted.isVisible_plain
    refine ⟨_, Bech32.decode?_eq_some_iff.mpr ⟨?_, words, ?_, rfl⟩, hdata⟩
    · exact List.forall_mem_map.mpr hvisible
    · exact (Bech32.accepted_map_plain_iff hvisible).mpr haccepted
  · rintro ⟨payload, hdecode, hdata⟩
    obtain ⟨hvisible, words, haccepted, rfl⟩ := Bech32.decode?_eq_some_iff.mp hdecode
    refine ⟨words, ?_, hdata⟩
    exact (Bech32.accepted_map_plain_iff (List.forall_mem_map.mp hvisible)).mp haccepted

/-- A text without Kelvin signs is read within 90 characters exactly as the reference decoder reads
it. Any other text is read as the one with letters for the signs, and the reference decoder refuses
it: its checks are made on the text before it is put in lower case. -/
theorem parse_eq_ok_iff_decode? {variant : Bech32Variant} {hrp t : Text} {nonempty : hrp ≠ []}
    {data : List UInt8} :
    (0x212A ∉ t →
      (parse (.checksummed variant hrp nonempty) 90 t = .ok data ↔
        ∃ words, Bech32.decode? variant t = some (hrp, words) ∧
          Bech32.bytesOfWords? words = some data)) ∧
    (0x212A ∈ t →
      Bech32.decode? variant t = none ∧
        (parse (.checksummed variant hrp nonempty) 90 t = .ok data ↔
          parse (.checksummed variant hrp nonempty) 90 (t.map CodePoint.plain) = .ok data)) := by
  constructor
  · intro hsign
    have hfixed : ∀ c ∈ t, c.plain = id c := fun c hc =>
      CodePoint.plain_of_ne fun hval =>
        hsign (show (0x212A : CodePoint) ∈ t from (Fin.ext hval : c = 0x212A) ▸ hc)
    have hplain : t.map CodePoint.plain = t := (List.map_congr_left hfixed).trans (List.map_id t)
    rw [parse_eq_ok_iff_plain, hplain]
  · intro hsign
    have hnone : Bech32.decode? variant t = none :=
      Bech32.decode?_eq_none_of_mem hsign (by decide)
    have hplain : (t.map CodePoint.plain).map CodePoint.plain = t.map CodePoint.plain := by
      simp [Bech32.plain_plain]
    exact ⟨hnone, by rw [parse_eq_ok_iff_plain, parse_eq_ok_iff_plain, hplain]⟩

/-- Addresses under a human-readable part that has the sign in place of a capital letter. -/
def letterDisplay : ByteDisplay := .checksummed .bech32 "k" (by decide)

theorem decode?_letter :
    ∃ words, Bech32.decode? .bech32 "K1QQQSLAHNJD" = some (("k" : Text), words) ∧
      Bech32.bytesOfWords? words = some [0, 1] := by
  have hupper : Text.IsUpperAscii "K1QQQSLAHNJD" := by decide
  have hlower : Text.lower "K1QQQSLAHNJD" = Bech32.render .bech32 "k" [0, 1] := by
    rw [Text.lower_of_isUpperAscii hupper]
    decide
  have hall : (Text.ofString "K1QQQSLAHNJD").all (fun c => Bech32.IsVisible c) = true := by
    decide
  have hvisible : ∀ c ∈ ("K1QQQSLAHNJD" : Text), Bech32.IsVisible c := fun c hc =>
    of_decide_eq_true (List.all_eq_true.mp hall c hc)
  refine ⟨_, Bech32.decode?_eq_some_iff.mpr ⟨hvisible, _, Bech32.accepted_of_lower (by decide)
    (by decide) (.inr (Text.isUpper_of_isUpperAscii hupper)) hlower (by decide), rfl⟩, ?_⟩
  rfl

/-- The letter and the sign are read alike. -/
theorem parse_letter_and_sign :
    parse letterDisplay 90 "K1QQQSLAHNJD" = .ok [0, 1] ∧
      parse letterDisplay 90 (0x212A :: "1QQQSLAHNJD") = .ok [0, 1] := by
  have hletter : parse letterDisplay 90 "K1QQQSLAHNJD" = .ok [0, 1] :=
    (parse_eq_ok_iff_decode?.1 (by decide)).mpr decode?_letter
  exact ⟨hletter, ((parse_eq_ok_iff_decode?.2 (by decide)).2).mpr hletter⟩

/-- The reference decoder refuses the sign. -/
theorem decode?_eq_none_of_sign :
    parse letterDisplay 90 (0x212A :: "1QQQSLAHNJD") = .ok [0, 1] ∧
      Bech32.decode? .bech32 (0x212A :: "1QQQSLAHNJD") = none :=
  ⟨parse_eq_ok_iff_plain.mpr decode?_letter,
    Bech32.decode?_eq_none_of_mem List.mem_cons_self (by decide)⟩

end ByteText

end BorshWire
