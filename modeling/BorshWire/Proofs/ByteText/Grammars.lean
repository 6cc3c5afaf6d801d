import BorshWire.Proofs.ByteText.RoundTrip
import BorshWire.Proofs.Simulation.Output
import Mathlib.Data.List.Forall2
import Mathlib.Data.Nat.Digits.Defs

/-!
# The grammars of hexadecimal and decimal byte texts

`parse_eq_ok_iff_spelled`: a text is read under the hexadecimal display exactly if it is pairs of
digits after an optional `0x` (`HexText`), and under the decimal display exactly if it is a bracketed
list of decimal bytes between commas, with blanks around the list and around each number
(`DecimalText`). Both grammars are stated without a look at how the text is read: no text has two
bodies because the brackets are its first and its last character that is no blank, and no body has
two lists of items because there is no comma in an item.
-/

namespace BorshWire

namespace ByteText

/-! ## The grammars -/

/-- A hexadecimal digit of either case and its value. -/
inductive HexDigit (c : CodePoint) (n : Nat) : Prop where
  | small (h : ("0123456789abcdef" : Text)[n]? = some c)
  | capital (h : ("0123456789ABCDEF" : Text)[n]? = some c)

theorem HexDigit.lt {c : CodePoint} {n : Nat} (h : HexDigit c n) : n < 16 := by
  rcases h with h | h <;> exact (List.getElem?_eq_some_iff.mp h).1

/-- Two digits for each byte, the high one first. -/
inductive HexPairs : Text → List UInt8 → Prop where
  | nil : HexPairs [] []
  | cons {a b : CodePoint} {high low : Nat} {byte : UInt8} {rest : Text} {data : List UInt8}
    (ha : HexDigit a high) (hb : HexDigit b low) (hbyte : byte.toNat = 16 * high + low)
    (hrest : HexPairs rest data) : HexPairs (a :: b :: rest) (byte :: data)

/-- The text of bytes in hexadecimal, with or without the `0x`. -/
inductive HexText (t : Text) (data : List UInt8) : Prop where
  | bare (h : HexPairs t data)
  | prefixed {digits : Text} (ht : t = "0x" ++ digits) (h : HexPairs digits data)

/-- Blanks, or nothing at all. -/
def Blanks (t : Text) : Prop := ∀ c ∈ t, c.isBlank = true

/-- The text of one byte in decimal: up to 4300 digits between blanks. -/
inductive DecimalItem : Text → UInt8 → Prop where
  | intro {lead digits trail : Text} {byte : UInt8} (hlead : Blanks lead) (htrail : Blanks trail)
    (hdigits : Numeral.Digits digits) (hlength : digits.length ≤ 4300)
    (hbyte : byte.toNat = Nat.ofDigits 10 (digits.map CodePoint.digitValue).reverse) :
    DecimalItem (lead ++ (digits ++ trail)) byte

/-- What stands between the brackets: blanks only, or items between commas, at least one. -/
inductive DecimalBody : Text → List UInt8 → Prop where
  | blank {body : Text} (h : Blanks body) : DecimalBody body []
  | items {items : List Text} {data : List UInt8} (hne : items ≠ [])
    (h : List.Forall₂ DecimalItem items data) : DecimalBody (Text.join [0x2C] items) data

/-- The text of bytes in decimal: a list in brackets, with blanks around it. -/
inductive DecimalText : Text → List UInt8 → Prop where
  | intro {lead body trail : Text} {data : List UInt8} (hlead : Blanks lead) (htrail : Blanks trail)
    (hbody : DecimalBody body data) :
    DecimalText (lead ++ (0x5B :: (body ++ 0x5D :: trail))) data

end ByteText

/-! ## Hexadecimal -/

open ByteText (HexDigit HexPairs)

theorem CodePoint.hexValue?_eq_some_iff {c : CodePoint} {n : Nat} :
    c.hexValue? = some n ↔ HexDigit c n := by
  constructor
  · have hdigits : ∀ k < 10, ("0123456789abcdef" : Text)[k]? = some (Fin.ofNat _ (0x30 + k)) := by
      decide
    have hsmall : ∀ k < 6,
        ("0123456789abcdef" : Text)[10 + k]? = some (Fin.ofNat _ (0x61 + k)) := by decide
    have hcapital : ∀ k < 6,
        ("0123456789ABCDEF" : Text)[10 + k]? = some (Fin.ofNat _ (0x41 + k)) := by decide
    have hval : ∀ {first k : Nat}, first + k = c.val → Fin.ofNat 0x110000 (first + k) = c := by
      rintro first k hk
      rw [hk]
      exact Fin.ofNat_val_eq_self c
    intro h
    unfold CodePoint.hexValue? at h
    split at h
    · obtain rfl := Option.some.inj h
      refine .small ((hdigits _ (by omega)).trans (congrArg some (hval (by omega))))
    · split at h
      · obtain rfl := Option.some.inj h
        rw [show c.val - 0x57 = 10 + (c.val - 0x61) by omega]
        exact .small ((hsmall _ (by omega)).trans (congrArg some (hval (by omega))))
      · split at h
        · obtain rfl := Option.some.inj h
          rw [show c.val - 0x37 = 10 + (c.val - 0x41) by omega]
          exact .capital ((hcapital _ (by omega)).trans (congrArg some (hval (by omega))))
        · cases h
  · have hsmall : ∀ k < 16,
        (("0123456789abcdef" : Text)[k]?.bind CodePoint.hexValue?) = some k := by decide
    have hcapital : ∀ k < 16,
        (("0123456789ABCDEF" : Text)[k]?.bind CodePoint.hexValue?) = some k := by decide
    rintro (h | h)
    · have hread := hsmall n (HexDigit.small h).lt
      rwa [h] at hread
    · have hread := hcapital n (HexDigit.capital h).lt
      rwa [h] at hread

namespace Text

theorem dropStart?_eq_some_iff {t start rest : Text} :
    t.dropStart? start = some rest ↔ t = start ++ rest := by
  constructor
  · intro h
    unfold dropStart? at h
    split at h
    · rename_i hstart
      obtain ⟨rest', rfl⟩ := List.isPrefixOf_iff_prefix.mp hstart
      rw [List.drop_left] at h
      rw [Option.some.inj h]
    · cases h
  · rintro rfl
    exact dropStart?_append start rest

theorem bytesOfHex?_eq_some_iff {t : Text} {data : List UInt8} :
    bytesOfHex? t = some data ↔ HexPairs t data := by
  constructor
  · intro h
    fun_induction bytesOfHex? t generalizing data with
    | case1 =>
      obtain rfl := Option.some.inj h
      exact .nil
    | case2 => cases h
    | case3 a b rest ih =>
      obtain ⟨high, hhigh, h⟩ := Option.bind_eq_some_iff.mp h
      obtain ⟨low, hlow, h⟩ := Option.bind_eq_some_iff.mp h
      obtain ⟨others, hrest, h⟩ := Option.bind_eq_some_iff.mp h
      obtain rfl := Option.some.inj h
      have ha := CodePoint.hexValue?_eq_some_iff.mp hhigh
      have hb := CodePoint.hexValue?_eq_some_iff.mp hlow
      have hhigh16 := ha.lt
      have hlow16 := hb.lt
      refine .cons ha hb ?_ (ih hrest)
      rw [UInt8.toNat_ofNat']
      omega
  · intro h
    induction h with
    | nil => rfl
    | @cons a b high low byte rest data ha hb hbyte _ ih =>
      rw [bytesOfHex?, CodePoint.hexValue?_eq_some_iff.mpr ha,
        CodePoint.hexValue?_eq_some_iff.mpr hb, ih]
      show some (UInt8.ofNat (16 * high + low) :: data) = some (byte :: data)
      rw [← hbyte, UInt8.ofNat_toNat]

end Text

namespace ByteText

theorem isSome_bytesOfHex?_iff (t : Text) (position : Nat) :
    (Text.bytesOfHex? t).isSome = true ↔ t.length % 2 ≠ 1 ∧ firstNotHex position t = none := by
  fun_induction Text.bytesOfHex? t generalizing position with
  | case1 => simp [firstNotHex]
  | case2 => simp
  | case3 a b rest ih =>
    cases ha : a.hexValue? with
    | none => simp [firstNotHex, ha]
    | some high =>
      cases hb : b.hexValue? with
      | none => simp [firstNotHex, ha, hb]
      | some low =>
        have hlength : (a :: b :: rest).length % 2 = rest.length % 2 := by
          rw [List.length_cons, List.length_cons]
          omega
        rw [hlength]
        have hrest := ih (position + 1 + 1)
        cases hdata : Text.bytesOfHex? rest <;> simpa [firstNotHex, ha, hb, hdata] using hrest

/-- The checks of hexadecimal text are passed by pairs of digits only. -/
theorem parseHex_eq_ok_iff {t : Text} {data : List UInt8} :
    parseHex t = .ok data ↔ HexPairs ((t.dropStart? "0x").getD t) data := by
  rw [← Text.bytesOfHex?_eq_some_iff, parseHex]
  generalize (t.dropStart? "0x").getD t = digits
  have hsome := isSome_bytesOfHex?_iff digits 0
  by_cases hodd : digits.length % 2 = 1
  · have hnone : Text.bytesOfHex? digits = none :=
      Option.not_isSome_iff_eq_none.mp fun h => (hsome.mp h).1 hodd
    rw [if_pos hodd, hnone]
    simp only [reduceCtorEq]
  · rw [if_neg hodd]
    cases hother : firstNotHex 0 digits with
    | some found =>
      have hnone : Text.bytesOfHex? digits = none := by
        rw [← Option.not_isSome_iff_eq_none, hsome, hother]
        simp only [reduceCtorEq, and_false, not_false_eq_true]
      rw [hnone]
      simp only [reduceCtorEq]
    | none =>
      obtain ⟨bytes, hbytes⟩ := Option.isSome_iff_exists.mp (hsome.mpr ⟨hodd, hother⟩)
      rw [hbytes, Option.some.injEq]
      exact ⟨Except.ok.inj, congrArg Except.ok⟩

/-- A text of digits does not start with `0x`, so that there is only one way to take that off. -/
theorem hexText_iff {t : Text} {data : List UInt8} :
    HexText t data ↔ HexPairs ((t.dropStart? "0x").getD t) data := by
  have hmark : ∀ {n : Nat}, ¬HexDigit 0x78 n := by
    intro n h
    have hvalue := CodePoint.hexValue?_eq_some_iff.mpr h
    cases hvalue
  constructor
  · rintro (h | ⟨rfl, h⟩)
    · cases hdrop : t.dropStart? "0x" with
      | none => exact h
      | some rest =>
        obtain rfl := Text.dropStart?_eq_some_iff.mp hdrop
        cases h with
        | cons _ hb => exact absurd hb hmark
    · rwa [Text.dropStart?_append]
  · intro h
    cases hdrop : t.dropStart? "0x" with
    | none =>
      rw [hdrop] at h
      exact .bare h
    | some rest =>
      rw [hdrop] at h
      exact .prefixed (Text.dropStart?_eq_some_iff.mp hdrop) h

end ByteText

/-! ## Lists -/

namespace Text

theorem splitOn_ne_nil (separator : CodePoint) (t : Text) : splitOn separator t ≠ [] := by
  intro h
  have hlength := length_splitOn separator t
  rw [h] at hlength
  cases hlength

theorem join_splitOn (separator : CodePoint) (t : Text) :
    join [separator] (splitOn separator t) = t := by
  induction t with
  | nil => rfl
  | cons c rest ih =>
    obtain ⟨piece, pieces, hsplit⟩ := List.exists_cons_of_ne_nil (splitOn_ne_nil separator rest)
    rw [splitOn, hsplit]
    rw [hsplit] at ih
    split
    · rename_i hc
      rw [hc]
      exact congrArg (separator :: ·) ih
    · cases pieces with
      | nil => exact congrArg (c :: ·) ih
      | cons next pieces => exact congrArg (c :: ·) ih

theorem splitOn_join {separator : CodePoint} {pieces : List Text} (hne : pieces ≠ [])
    (h : ∀ piece ∈ pieces, separator ∉ piece) :
    splitOn separator (join [separator] pieces) = pieces := by
  induction pieces with
  | nil => exact absurd rfl hne
  | cons piece rest ih =>
    obtain ⟨hpiece, hrest⟩ := List.forall_mem_cons.mp h
    cases rest with
    | nil => exact splitOn_of_not_mem hpiece
    | cons next rest =>
      show splitOn separator ((piece ++ [separator]) ++ join [separator] (next :: rest)) = _
      rw [List.append_assoc, List.singleton_append, splitOn_append hpiece,
        ih (List.cons_ne_nil _ _) hrest]

theorem toNat_eq_ofDigits (digits : Text) :
    toNat digits = Nat.ofDigits 10 (digits.map CodePoint.digitValue).reverse := by
  rw [Nat.ofDigits_eq_foldr, List.foldr_reverse, List.foldl_map]
  simp only [toNat, Nat.cast_id, Nat.add_comm]

end Text

/-! ## Decimal -/

namespace ByteText

theorem strip_isEmpty_iff {t : Text} : t.strip.isEmpty = true ↔ Blanks t := by
  rw [List.isEmpty_iff]
  constructor
  · intro h c hc
    by_contra hblank
    exact Text.strip_ne_nil hc (Bool.eq_false_iff.mpr hblank) h
  · intro h
    have htrim := Text.trim_padded h (List.forall_mem_nil _) []
    rwa [List.append_nil, List.append_nil] at htrim

/-- The brackets are the first and the last character that is no blank. -/
theorem listBody?_eq_some_iff {t body : Text} :
    listBody? t = some body ↔
      ∃ lead trail, Blanks lead ∧ Blanks trail ∧ t = lead ++ (0x5B :: (body ++ 0x5D :: trail)) := by
  constructor
  · obtain ⟨lead, trail, hlead, htrail, ht⟩ := Text.exists_trim CodePoint.isBlank t
    intro h
    unfold listBody? at h
    split at h
    · rename_i rest hrest
      split at h
      · rename_i hlast
        obtain rfl := Option.some.inj h
        have hrest' := List.dropLast_append_getLast? _ hlast
        refine ⟨lead, trail, hlead, htrail, ?_⟩
        rw [ht]
        show lead ++ (t.strip ++ trail) = _
        rw [hrest, ← hrest']
        simp
      · cases h
    · cases h
  · rintro ⟨lead, trail, hlead, htrail, rfl⟩
    have hstrip : Text.strip (lead ++ (0x5B :: (body ++ 0x5D :: trail))) =
        0x5B :: (body ++ [0x5D]) := by
      have htrim := Text.trim_padded hlead htrail (0x5B :: (body ++ [0x5D]))
      rw [List.cons_append, List.append_assoc, List.singleton_append] at htrim
      exact htrim.trans (Text.strip_between (by decide) (by decide) body)
    rw [listBody?, hstrip]
    show (if _ then _ else _) = _
    rw [List.getLast?_concat, if_pos rfl, List.dropLast_concat]

/-- A number is read exactly if it is the text of a byte. -/
theorem parseItem_eq_ok_iff {text item : Text} {byte : UInt8} :
    parseItem text item = .ok byte ↔ DecimalItem item byte := by
  constructor
  · obtain ⟨lead, trail, hlead, htrail, hitem⟩ := Text.exists_trim CodePoint.isBlank item
    intro h
    unfold parseItem at h
    dsimp only at h
    split at h
    · cases h
    · rename_i hdigits
      split at h
      · cases h
      · rename_i hlength
        split at h
        · cases h
        · rename_i hbyte
          obtain rfl := Except.ok.inj h
          have hlt : Text.toNat item.strip < 2 ^ 8 := by omega
          have hread : DecimalItem (lead ++ (item.trim CodePoint.isBlank ++ trail))
              (UInt8.ofNat (Text.toNat item.strip)) := by
            refine .intro hlead htrail (Numeral.digits_iff.mp (Bool.eq_false_iff.mpr hdigits))
              (Nat.not_lt.mp hlength) ?_
            rw [← Text.toNat_eq_ofDigits, UInt8.toNat_ofNat']
            exact Nat.mod_eq_of_lt hlt
          rwa [← hitem] at hread
  · rintro ⟨hlead, htrail, hdigits, hlength, hbyte⟩
    rename_i lead digits trail
    have hstrip : Text.strip (lead ++ (digits ++ trail)) = digits :=
      Text.trim_append hlead (fun c hc => Text.isBlank_of_isDigit (hdigits.2 c hc)) htrail
    have hle : ¬255 < byte.toNat := by
      have := byte.toNat_lt
      omega
    have hshort : ¬maxIntegerDigits < digits.length := Nat.not_lt.mpr hlength
    rw [parseItem, hstrip]
    dsimp only
    rw [Numeral.digits_iff.mpr hdigits, if_neg Bool.false_ne_true, if_neg hshort,
      Text.toNat_eq_ofDigits, ← hbyte, if_neg hle, UInt8.ofNat_toNat]

theorem DecimalItem.chars {item : Text} {byte : UInt8} (h : DecimalItem item byte) :
    (∃ c ∈ item, c.isBlank = false) ∧ (0x2C : CodePoint) ∉ item := by
  obtain ⟨hlead, htrail, hdigits, -, -⟩ := h
  rename_i lead digits trail
  constructor
  · obtain ⟨c, rest, rfl⟩ := List.exists_cons_of_ne_nil hdigits.1
    refine ⟨c, ?_, Text.isBlank_of_isDigit (hdigits.2 c List.mem_cons_self)⟩
    simp
  · intro hmem
    rcases List.mem_append.mp hmem with hmem | hmem
    · exact absurd (hlead _ hmem) (by decide)
    · rcases List.mem_append.mp hmem with hmem | hmem
      · exact absurd (hdigits.2 _ hmem) (by decide)
      · exact absurd (htrail _ hmem) (by decide)

theorem DecimalItem.chars_of_mem {items : List Text} {data : List UInt8}
    (h : List.Forall₂ DecimalItem items data) :
    ∀ item ∈ items, (∃ c ∈ item, c.isBlank = false) ∧ (0x2C : CodePoint) ∉ item := by
  induction h with
  | nil => exact List.forall_mem_nil _
  | cons hitem _ ih => exact List.forall_mem_cons.mpr ⟨hitem.chars, ih⟩

/-- What stands between the brackets is read exactly if it is a body. -/
theorem parseDecimal_eq_ok_iff {t : Text} {data : List UInt8} :
    parseDecimal t = .ok data ↔ DecimalText t data := by
  have hitems : ∀ {items : List Text} {data : List UInt8},
      List.Forall₂ (fun item byte => parseItem t item = .ok byte) items data ↔
        List.Forall₂ DecimalItem items data := by
    intro items data
    simp only [parseItem_eq_ok_iff]
  constructor
  · intro h
    unfold parseDecimal at h
    cases hbody : listBody? t with
    | none =>
      rw [hbody] at h
      cases h
    | some body =>
      rw [hbody] at h
      obtain ⟨lead, trail, hlead, htrail, rfl⟩ := listBody?_eq_some_iff.mp hbody
      refine .intro hlead htrail ?_
      dsimp only at h
      split at h
      · rename_i hblank
        obtain rfl := Except.ok.inj h
        exact .blank (strip_isEmpty_iff.mp hblank)
      · have hread := hitems.mp (mapM_eq_ok_iff_forall₂.mp h)
        exact Text.join_splitOn 0x2C body ▸ .items (Text.splitOn_ne_nil _ _) hread
  · rintro ⟨hlead, htrail, hbody⟩
    rw [parseDecimal, listBody?_eq_some_iff.mpr ⟨_, _, hlead, htrail, rfl⟩]
    dsimp only
    cases hbody with
    | blank h => rw [if_pos (strip_isEmpty_iff.mpr h)]
    | @items items data hne h =>
      have hchars := DecimalItem.chars_of_mem h
      have hcomma := fun item hitem => (hchars item hitem).2
      have hblank : ¬(Text.strip (Text.join [0x2C] items)).isEmpty = true := by
        obtain ⟨item, rest, rfl⟩ := List.exists_cons_of_ne_nil hne
        obtain ⟨⟨c, hc, hdigit⟩, -⟩ := hchars item List.mem_cons_self
        rw [strip_isEmpty_iff]
        exact fun hall => Bool.false_ne_true (hdigit ▸ hall c (Text.mem_join_cons hc))
      rw [if_neg hblank, Text.splitOn_join hne hcomma]
      exact mapM_eq_ok_iff_forall₂.mpr (hitems.mpr h)

/-- Hexadecimal and decimal texts are read exactly if they are of their grammars, as the bytes that
they spell there. -/
theorem parse_eq_ok_iff_spelled (hrp : Option Text) (maxLength : Int) (t : Text)
    (data : List UInt8) :
    (parse (.hex hrp) maxLength t = .ok data ↔ HexText t data) ∧
      (parse (.decimal hrp) maxLength t = .ok data ↔ DecimalText t data) :=
  ⟨parseHex_eq_ok_iff.trans hexText_iff.symm, parseDecimal_eq_ok_iff⟩

end ByteText

end BorshWire
