import BorshWire.Proofs.ByteText.ReferenceDecoder
import BorshWire.Proofs.Descriptor.RoundTrip

/-!
# Displays that can be read

A display is loaded under any human-readable part but the empty one. A text is put in lower case
before its human-readable part is compared, and only visible characters may stand there. So under a
part with a capital letter or an invisible character no text is read at all, and under every other
display there is a text for each byte string (`exists_parse_of_readable`).
-/

namespace BorshWire

namespace Bech32

theorem Accepted.not_capital {variant : Bech32Variant} {t hrp : Text} {maxLength : Int}
    {words : List Word} (h : Accepted variant hrp maxLength t words) :
    ∀ d ∈ t.lower, ¬(0x41 ≤ d.val ∧ d.val ≤ 0x5A) := by
  have hvisible := h.isVisible_plain
  rw [Text.lower_of_plain fun c hc => Nat.lt_of_le_of_lt (hvisible c hc).2 (by decide)]
  intro d hd
  obtain ⟨c, _, rfl⟩ := List.mem_map.mp hd
  rw [CodePoint.val_lowerAscii]
  split <;> omega

/-- Only a valid human-readable part is that of a text that passes the checks. -/
theorem Accepted.validHrp {variant : Bech32Variant} {t hrp : Text} {maxLength : Int}
    {words : List Word} (h : Accepted variant hrp maxLength t words) : ValidHrp hrp := by
  obtain ⟨tail, hsplit, _, _⟩ := h.split
  have hlower : t.lower = hrp ++ 0x31 :: tail := (splitLast_eq_some_iff.mp hsplit).1
  intro c hc
  have hmem : c ∈ t.lower := hlower ▸ List.mem_append_left _ hc
  exact ⟨(h.hrp_visible c hc).1, (h.hrp_visible c hc).2, h.not_capital c hmem⟩

end Bech32

/-- A display that is not checksummed, or that has a human-readable part of visible characters
without capital letters. -/
def ByteDisplay.Readable : ByteDisplay → Prop
  | .hex _ => True
  | .decimal _ => True
  | .checksummed _ hrp _ => Bech32.ValidHrp hrp

instance ByteDisplay.instDecidableReadable : (display : ByteDisplay) → Decidable display.Readable
  | .hex _ => inferInstanceAs (Decidable True)
  | .decimal _ => inferInstanceAs (Decidable True)
  | .checksummed _ hrp _ => inferInstanceAs (Decidable (Bech32.ValidHrp hrp))

namespace ByteText

/-- A readable display reads what it writes, within the length limit. -/
theorem parse_render_of_readable {display : ByteDisplay} (h : display.Readable) {maxLength : Int}
    {data : List UInt8} (hlength : ((render display data).length : Int) ≤ maxLength) :
    parse display maxLength (render display data) = .ok data := by
  cases display with
  | hex hrp => exact parseHex_render hrp data
  | decimal hrp => exact parseDecimal_render hrp data
  | checksummed variant hrp nonempty =>
    exact checksummed_parses_iff.mpr (Bech32.parse_render_of_validHrp nonempty h hlength)

/-- A display that has read a text is readable. -/
theorem readable_of_parse {display : ByteDisplay} {maxLength : Int} {t : Text} {data : List UInt8}
    (h : parse display maxLength t = .ok data) : display.Readable := by
  cases display with
  | hex hrp => trivial
  | decimal hrp => trivial
  | checksummed variant hrp nonempty =>
    obtain ⟨words, haccepted, _⟩ := parse_checksummed_eq_ok_iff.mp h
    exact haccepted.validHrp

/-- Every display can be loaded. Under a readable one each byte string has a text that is read as
it, whatever length limit admits what is written for it, and under any other one no text is read,
whatever the limit. -/
theorem exists_parse_of_readable (display : ByteDisplay) :
    (∃ v, Descriptor.byteDisplay v = .sound display) ∧
      (display.Readable → ∀ (data : List UInt8) (maxLength : Int),
        ((render display data).length : Int) ≤ maxLength →
          ∃ t, parse display maxLength t = .ok data) ∧
      (¬display.Readable → ∀ (data : List UInt8) (maxLength : Int) (t : Text),
        parse display maxLength t ≠ .ok data) := by
  refine ⟨?loaded, ?readable, ?unreadable⟩
  case loaded =>
    exact ⟨_, Descriptor.byteDisplay_isRead display _ display.writing.admits_plain⟩
  case readable =>
    exact fun h data maxLength hlength => ⟨_, parse_render_of_readable h hlength⟩
  case unreadable =>
    exact fun h data maxLength t hparse => h (readable_of_parse hparse)

theorem exists_parse_address :
    ((render addressDisplay [0, 255, 7]).length : Int) ≤ 15 ∧
      ∃ t, parse addressDisplay 15 t = .ok [0, 255, 7] := by
  have hrender : render addressDisplay [0, 255, 7] = "a1b1qrlswfyqdvx" := by decide
  have hlength : ((render addressDisplay [0, 255, 7]).length : Int) ≤ 15 := by
    rw [hrender]
    decide
  exact ⟨hlength, (exists_parse_of_readable addressDisplay).2.1 (by decide) _ _ hlength⟩

/-- Addresses under a human-readable part in capital letters. -/
def capitalDisplay : ByteDisplay := .checksummed .bech32 "SOV" (by decide)

/-- It is loaded and writes a short text, and no text at all is read: the human-readable part of a
text is `sov` once it is in lower case. -/
theorem capital_unreadable :
    Descriptor.byteDisplay (.map [(.text "Bech32", .map [(.text "prefix", .text "SOV")])]) =
        .sound capitalDisplay ∧
      ((render capitalDisplay [0, 1]).length : Int) ≤ 90 ∧
      ∀ t, parse capitalDisplay 90 t ≠ .ok [0, 1] := by
  have hrender : render capitalDisplay [0, 1] = "SOV1qqqs9lkjew" := by decide
  refine ⟨rfl, ?_, fun t hparse => ?_⟩
  · rw [hrender]
    decide
  · exact absurd (readable_of_parse hparse) (by decide)

end ByteText

end BorshWire
