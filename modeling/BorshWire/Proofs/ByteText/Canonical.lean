import BorshWire.Proofs.ByteText.RoundTrip

/-!
# A byte string has one checksummed text

`render_of_parse`: what is read under a checksummed display is written back as the text that was
read, in lower case. The characters of a text are those of its words, the words before the checksum
are those of the bytes, because their padding has to be zero, and the checksum is the only one that
comes to its target. So texts of the same bytes differ in case only, and none is read under both
rules.
-/

namespace BorshWire

namespace Bech32

/-! ## The text of the words -/

theorem charOf_of_wordOf? {c : CodePoint} {w : Word} (h : wordOf? c = some w) : charOf w = c := by
  obtain ⟨i, hi, rfl⟩ := Option.map_eq_some_iff.mp h
  obtain ⟨hlt, hc, _⟩ := List.findIdx?_eq_some_iff_getElem.mp hi
  have hmod : i % 2 ^ 5 = i := Nat.mod_eq_of_lt hlt
  rw [charOf, BitVec.toNat_ofNat, hmod, List.getD_eq_getElem?_getD, List.getElem?_eq_getElem hlt]
  exact eq_of_beq hc

theorem eq_map_charOf {t : Text} {words : List Word} (h : wordsOf t = .ok words) :
    t = words.map charOf := by
  induction t generalizing words with
  | nil =>
    obtain rfl := Except.ok.inj h
    rfl
  | cons c rest ih =>
    rw [wordsOf] at h
    cases hw : wordOf? c with
    | none =>
      rw [hw] at h
      cases h
    | some w =>
      rw [hw] at h
      cases hrest : wordsOf rest with
      | error d =>
        rw [hrest] at h
        cases h
      | ok ws =>
        rw [hrest] at h
        obtain rfl := Except.ok.inj h
        rw [List.map_cons, charOf_of_wordOf? hw, ← ih hrest]

theorem splitLast_of_not_mem {t : Text} (h : (0x31 : CodePoint) ∉ t) : splitLast t = none := by
  have hall : t.reverse.takeWhile (· != 0x31) = t.reverse := by
    rw [List.takeWhile_eq_self_iff]
    intro c hc
    exact bne_iff_ne.mpr fun hc' => h (hc' ▸ List.mem_reverse.mp hc)
  simp [splitLast, hall]

theorem exists_last_of_mem {t : Text} (h : (0x31 : CodePoint) ∈ t) :
    ∃ hrp tail, t = hrp ++ 0x31 :: tail ∧ (0x31 : CodePoint) ∉ tail := by
  obtain ⟨back, front, hreverse, hback⟩ := List.eq_append_cons_of_mem (List.mem_reverse.mpr h)
  refine ⟨front.reverse, back.reverse, ?_, mt List.mem_reverse.mp hback⟩
  rw [← List.reverse_reverse t, hreverse]
  simp

theorem splitLast_eq_some_iff {t hrp tail : Text} :
    splitLast t = some (hrp, tail) ↔ t = hrp ++ 0x31 :: tail ∧ (0x31 : CodePoint) ∉ tail := by
  constructor
  · intro h
    by_cases hmem : (0x31 : CodePoint) ∈ t
    · obtain ⟨front, back, rfl, hlast⟩ := exists_last_of_mem hmem
      rw [splitLast_append _ hlast] at h
      obtain ⟨rfl, rfl⟩ := Prod.mk.inj (Option.some.inj h)
      exact ⟨rfl, hlast⟩
    · rw [splitLast_of_not_mem hmem] at h
      cases h
  · rintro ⟨rfl, hlast⟩
    exact splitLast_append hrp hlast

/-! ## Accepted texts -/

/-- What is accepted is the text that is written for its words, in either case. -/
theorem Accepted.lower_eq {variant : Bech32Variant} {hrp t : Text} {maxLength : Int}
    {words : List Word} (h : Accepted variant hrp maxLength t words) {data : List UInt8}
    (hdata : bytesOfWords? (words.take (words.length - checksumLength)) = some data) :
    render variant hrp data = t.lower := by
  obtain ⟨tail, hsplit, hlong, hwords⟩ := h.split
  have htail := eq_map_charOf hwords
  have hlength : checksumLength ≤ words.length := by
    rw [htail, List.length_map] at hlong
    exact hlong
  have hparts := List.take_append_drop (words.length - checksumLength) words
  have hcheck : words.drop (words.length - checksumLength) =
      checksum variant hrp (words.take (words.length - checksumLength)) := by
    apply eq_checksum_of_polymod
    · rw [List.length_drop]
      omega
    · rw [hparts]
      exact h.valid
  rw [(splitLast_eq_some_iff.mp hsplit).1, htail, render, wordsOfBytes_of_bytesOfWords? hdata,
    ← hcheck, hparts]

/-- The checksum of one text does not come to both targets. -/
theorem Accepted.variant_unique {variant variant' : Bech32Variant} {hrp hrp' t : Text}
    {maxLength maxLength' : Int} {words words' : List Word}
    (h : Accepted variant hrp maxLength t words) (h' : Accepted variant' hrp' maxLength' t words') :
    variant = variant' := by
  obtain ⟨tail, hsplit, _, hwords⟩ := h.split
  obtain ⟨tail', hsplit', _, hwords'⟩ := h'.split
  obtain ⟨rfl, rfl⟩ := Prod.mk.inj (Option.some.inj (hsplit.symm.trans hsplit'))
  obtain rfl := Except.ok.inj (hwords.symm.trans hwords')
  have htarget : target variant = target variant' := h.valid.symm.trans h'.valid
  cases variant <;> cases variant' <;> first | rfl | exact absurd htarget (by decide)

end Bech32

namespace ByteText

theorem parse_checksummed_eq_ok_iff {variant : Bech32Variant} {hrp t : Text} {nonempty : hrp ≠ []}
    {maxLength : Int} {data : List UInt8} :
    parse (.checksummed variant hrp nonempty) maxLength t = .ok data ↔
      ∃ words, Bech32.Accepted variant hrp maxLength t words ∧
        Bech32.bytesOfWords? (words.take (words.length - Bech32.checksumLength)) = some data :=
  checksummed_parses_iff.trans Bech32.parse_eq_ok_iff

/-- Bytes that are read under a checksummed display are written as the text they were read from, in
lower case. Every text of these bytes is the same in lower case, whatever the length limits, and no
text is read under both checksum rules. -/
theorem render_of_parse {variant : Bech32Variant} {hrp t : Text} {nonempty : hrp ≠ []}
    {maxLength : Int} {data : List UInt8}
    (h : parse (.checksummed variant hrp nonempty) maxLength t = .ok data) :
    render (.checksummed variant hrp nonempty) data = t.lower ∧
      (∀ maxLength' t', parse (.checksummed variant hrp nonempty) maxLength' t' = .ok data →
        t'.lower = t.lower) ∧
      ∀ variant' hrp' nonempty' maxLength' data',
        parse (.checksummed variant' hrp' nonempty') maxLength' t = .ok data' →
          variant' = variant := by
  obtain ⟨words, haccepted, hdata⟩ := parse_checksummed_eq_ok_iff.mp h
  have hrender := haccepted.lower_eq hdata
  refine ⟨hrender, fun maxLength' t' h' => ?_, fun variant' hrp' nonempty' maxLength' data' h' => ?_⟩
  · obtain ⟨words', haccepted', hdata'⟩ := parse_checksummed_eq_ok_iff.mp h'
    exact (haccepted'.lower_eq hdata').symm.trans hrender
  · obtain ⟨words', haccepted', _⟩ := parse_checksummed_eq_ok_iff.mp h'
    exact haccepted'.variant_unique haccepted

theorem lower_capitals : Text.lower "A1B1QRLSWFYQDVX" = render addressDisplay [0, 255, 7] := by
  rw [Text.lower_of_isUpperAscii (by decide)]
  decide

/-- An address in capital letters, under a human-readable part that holds the separator. -/
theorem parse_capitals : parse addressDisplay 90 "A1B1QRLSWFYQDVX" = .ok [0, 255, 7] := by
  have hupper : Text.isUpper "A1B1QRLSWFYQDVX" = true := Text.isUpper_of_isUpperAscii (by decide)
  exact checksummed_parses_iff.mpr
    (Bech32.parse_of_lower (by decide) (by decide) (.inr hupper) lower_capitals (by decide))

theorem render_of_parse_capitals :
    parse addressDisplay 90 "A1B1QRLSWFYQDVX" = .ok [0, 255, 7] ∧
      render addressDisplay [0, 255, 7] = Text.lower "A1B1QRLSWFYQDVX" :=
  ⟨parse_capitals, (render_of_parse parse_capitals).1⟩

end ByteText

end BorshWire
