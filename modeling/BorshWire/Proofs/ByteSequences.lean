import BorshWire.Proofs.ByteText.RoundTrip
import BorshWire.Proofs.Context

/-!
# The forms of a byte sequence

`Encoder.encode_byteForms`: at a type of byte strings a sequence is encoded exactly if it is encoded at
the type of sequences of `u8` of the same wire form, to the same bytes, and all of its items are
integers. A buffer with the same bytes and every text that the display of the type reads as these bytes
are encoded like the sequence.

The two types go through different checks: the one looks for items between 0 and 255 before it writes
anything, the other visits item by item. Both come down to the list of bytes that the items spell
(`Items.Spell`). A view is the exception: the one type takes the bytes below it, the other the items
that it shows, so that they agree on views that show their bytes and not on others
(`encode_words_differs`).
-/

namespace BorshWire

/-- The items are there, and they are the numbers of these bytes. -/
def Items.Spell (items : Items) (data : List UInt8) : Prop :=
  items.opened = .ok (data.map Value.ofByte)

/-- A type of byte strings, and the type of sequences of `u8` that has the same form on the wire. -/
inductive Schema.ByteForms (s : Schema) (display : ByteDisplay) : Ty → Ty → Prop where
  | vec {item : Link} {shown : IntegerDisplay}
    (h : s.resolve item = .ok (.primitive (.integer ⟨false, .w8⟩ shown))) :
    ByteForms s display (.primitive (.byteVec display)) (.vec item)
  | array (length : Nat) {item : Link} {shown : IntegerDisplay}
    (h : s.resolve item = .ok (.primitive (.integer ⟨false, .w8⟩ shown))) :
    ByteForms s display (.primitive (.byteArray length display)) (.array length item)

/-! ## Items that are bytes -/

theorem Value.int_eq_ofByte_iff {n : Int} {b : UInt8} :
    Value.int n = .ofByte b ↔ (0 ≤ n ∧ n ≤ 255) ∧ UInt8.ofNat n.toNat = b := by
  have hlt := b.toNat_lt
  constructor
  · intro h
    obtain rfl : n = b.toNat := Value.int.inj h
    exact ⟨by omega, by rw [Int.toNat_natCast, UInt8.ofNat_toNat]⟩
  · rintro ⟨hn, rfl⟩
    rw [Value.ofByte, Value.int.injEq, UInt8.toNat_ofNat']
    omega

namespace Items.Spell

variable {items : Items} {data other : List UInt8}

theorem toList_eq (h : items.Spell data) : items.toList = data.map Value.ofByte :=
  toList_of_opened h

theorem length_eq (h : items.Spell data) : items.length = data.length := by
  rw [length_of_opened h, List.length_map]

theorem length_le_of_spaced {numbers : Progression} (h : (Items.spaced numbers).Spell data) :
    numbers.length < Progression.maxByteItems := by
  by_contra hlength
  obtain ⟨n, hn, hbyte⟩ := Progression.exists_not_byte (Nat.not_lt.mp hlength)
  rw [Progression.first_eq_take] at hn
  have hmem : Value.int n ∈ data.map Value.ofByte :=
    h.toList_eq ▸ List.mem_map_of_mem (List.mem_of_mem_take hn)
  obtain ⟨b, _, hb⟩ := List.mem_map.mp hmem
  exact hbyte (Value.int_eq_ofByte_iff.mp hb.symm).1

theorem count (h : items.Spell data) : items.count = .ok data.length := by
  rw [← h.length_eq]
  cases items with
  | listed values => rfl
  | spaced numbers =>
    have hlength : numbers.length < twoPow 63 :=
      Nat.lt_of_lt_of_le h.length_le_of_spaced (by decide)
    exact if_pos hlength
  | sealed count reason => rfl

end Items.Spell

namespace Encode

theorem byteValue_eq_ok_iff {v : Value} {b : UInt8} : byteValue v = .ok b ↔ v = .ofByte b := by
  cases v with
  | int n =>
    rw [Value.int_eq_ofByte_iff, byteValue]
    split
    · rename_i hn
      exact ⟨fun h => ⟨hn, Except.ok.inj h⟩, fun h => congrArg Except.ok h.2⟩
    · rename_i hn
      exact iff_of_false (by simp) fun h => hn h.1
  | _ => simp only [byteValue, Value.ofByte, reduceCtorEq]

theorem mapM_byteValue_eq_ok_iff {values : List Value} {data : List UInt8} :
    values.mapM byteValue = .ok data ↔ values = data.map Value.ofByte := by
  simp only [mapM_eq_ok_iff_forall₂, byteValue_eq_ok_iff]
  rw [← List.forall₂_map_right_iff, List.forall₂_eq_eq_eq]

theorem byteItems_eq_ok_iff {items : Items} {data : List UInt8} :
    byteItems items = .ok data ↔ items.Spell data := by
  have hopened : items.Spell data ↔ ∃ values, items.opened = .ok values ∧
      values = data.map Value.ofByte := by
    constructor
    · exact fun h => ⟨_, h, rfl⟩
    · rintro ⟨_, h, rfl⟩
      exact h
  rw [hopened]
  cases items with
  | listed values =>
    simp only [Items.opened, Items.toList, Except.ok.injEq, exists_eq_left']
    exact mapM_byteValue_eq_ok_iff
  | spaced numbers =>
    simp only [Items.opened, Except.ok.injEq, exists_eq_left']
    rw [byteItems_spaced]
    exact mapM_byteValue_eq_ok_iff
  | sealed count reason =>
    constructor
    · intro h
      cases h
    · rintro ⟨_, h, _⟩
      cases h

theorem byteString_eq_ok_iff {s : Value} (hbytewise : s.IsBytewise) {items : Items}
    (hs : s.items? = some items) {expected : Text} {maxLength : Nat} {display : ByteDisplay}
    {data : List UInt8} : byteString expected maxLength display s = .ok data ↔ items.Spell data := by
  rw [← byteItems_eq_ok_iff]
  cases s with
  | buffer kind own =>
    obtain rfl := Option.some.inj hs
    rw [byteItems_ofByte]
    rfl
  | view shown =>
    obtain rfl := Option.some.inj hs
    have hshown : shown.items = .listed (shown.data.map Value.ofByte) := hbytewise shown rfl
    rw [hshown, byteItems_ofByte]
    rfl
  | list _ | tuple _ | range _ =>
    obtain rfl := Option.some.inj hs
    rfl
  | _ => cases hs

/-! ## On the wire -/

theorem u8_yields_iff {n : Int} {own : List UInt8} :
    (written (Write.integer ⟨false, .w8⟩ (.int n))).Yields own () ↔
      ∃ b, Value.int n = .ofByte b ∧ own = [b] := by
  have hcontains : (IntKind.range ⟨false, .w8⟩).contains n = true ↔ 0 ≤ n ∧ n ≤ 255 := by
    rw [IntRange.contains, decide_eq_true_eq]
    show (0 : Int) ≤ n ∧ n ≤ 255 ↔ _
    rfl
  have hbytes : 0 ≤ n ∧ n ≤ 255 →
      (IntKind.range ⟨false, .w8⟩).bytes n = [UInt8.ofNat n.toNat] := by
    intro hn
    have hmod : (n % 256).toNat % 256 = n.toNat := by omega
    exact congrArg (fun m => [UInt8.ofNat m]) hmod
  rw [written_yields_iff, Write.integer_yields_iff]
  constructor
  · rintro ⟨_, hm, hc, rfl⟩
    obtain rfl := Option.some.inj hm
    have hn := hcontains.mp hc
    exact ⟨_, Value.int_eq_ofByte_iff.mpr ⟨hn, rfl⟩, hbytes hn⟩
  · rintro ⟨b, hb, rfl⟩
    obtain ⟨hn, rfl⟩ := Value.int_eq_ofByte_iff.mp hb
    exact ⟨n, rfl, hcontains.mpr hn, (hbytes hn).symm⟩

theorem counted_yields_iff {n : Nat} {x : Output EncodeError Unit} {bytes : List UInt8} :
    (do Output.ofExcept (checkCount n); written (Write.count n); x : Output EncodeError Unit).Yields
        bytes () ↔
      n < twoPow 32 ∧ ∃ own, x.Yields own () ∧ bytes = littleEndian 4 n ++ own := by
  rw [Output.yields_ofExcept_bind_iff]
  constructor
  · rintro ⟨_, _, h⟩
    obtain ⟨front, _, own, hfront, hown, rfl⟩ := Output.yields_bind_iff.mp h
    obtain ⟨hn, rfl⟩ := Write.count_yields_iff.mp (written_yields_iff.mp hfront)
    exact ⟨hn, own, hown, rfl⟩
  · rintro ⟨hn, own, hown, rfl⟩
    have hcount := written_yields_iff.mpr (Write.count_yields_iff.mpr ⟨hn, rfl⟩)
    exact ⟨(), checkCount_eq_ok_iff.mpr (Nat.le_sub_one_of_lt hn),
      Output.yields_bind_iff.mpr ⟨_, (), own, hcount, hown, rfl⟩⟩

section Sequences

variable {e : Encoder} {levels : Nat} {item : Link} {shown : IntegerDisplay} {s : Value}
  {items : Items}
  {bytes : List UInt8}

/-- Integers that are visited one by one at the type `u8` are written exactly if they are bytes. -/
theorem forEach_u8_yields_iff {values : List Value} :
    ((Output.forEach (visit e (levels + 1) (.primitive (.integer ⟨false, .w8⟩ shown)) item)
        values).Yields bytes () ∧ ∀ v ∈ values, ∃ n, v = .int n) ↔
      values = bytes.map Value.ofByte := by
  induction values generalizing bytes with
  | nil =>
    rw [Output.yields_forEach_nil_iff, and_iff_left (List.forall_mem_nil _), eq_comm (a := []),
      List.map_eq_nil_iff]
  | cons v rest ih =>
    rw [Output.yields_forEach_cons_iff, List.forall_mem_cons]
    constructor
    · rintro ⟨⟨front, back, hv, hrest, rfl⟩, ⟨n, rfl⟩, hints⟩
      obtain ⟨b, hb, rfl⟩ := u8_yields_iff.mp hv
      rw [hb, ih.mp ⟨hrest, hints⟩]
      rfl
    · intro h
      cases bytes with
      | nil => cases h
      | cons b back =>
        obtain ⟨rfl, hrest⟩ := List.cons.inj h
        obtain ⟨hrest, hints⟩ := ih.mpr hrest
        exact ⟨⟨[b], back, u8_yields_iff.mpr ⟨b, rfl, rfl⟩, hrest, rfl⟩, ⟨b.toNat, rfl⟩, hints⟩

theorem byteVec_yields_iff (hbytewise : s.IsBytewise) (hs : s.items? = some items)
    {config : Config} {display : ByteDisplay} :
    (primitive config (.byteVec display) s).Yields bytes () ↔
      ∃ data, items.Spell data ∧ data.length < twoPow 32 ∧
        bytes = littleEndian 4 data.length ++ data := by
  rw [primitive, Output.yields_ofExcept_bind_iff]
  refine exists_congr fun data => and_congr (byteString_eq_ok_iff hbytewise hs) ?_
  refine counted_yields_iff.trans (and_congr_right fun _ => ?_)
  constructor
  · rintro ⟨own, hown, rfl⟩
    rw [written_emit_yields_iff.mp hown]
  · rintro rfl
    exact ⟨data, written_emit_yields_iff.mpr rfl, rfl⟩

theorem byteArray_yields_iff (hbytewise : s.IsBytewise) (hs : s.items? = some items)
    {config : Config} {length : Nat} {display : ByteDisplay} :
    (primitive config (.byteArray length display) s).Yields bytes () ↔
      items.Spell bytes ∧ bytes.length = length := by
  rw [primitive, Output.yields_ofExcept_bind_iff]
  constructor
  · rintro ⟨data, hdata, h⟩
    split at h
    · rename_i hlength
      obtain rfl := written_emit_yields_iff.mp h
      exact ⟨(byteString_eq_ok_iff hbytewise hs).mp hdata, hlength⟩
    · exact absurd h Output.not_yields_fail
  · rintro ⟨hspell, hlength⟩
    refine ⟨bytes, (byteString_eq_ok_iff hbytewise hs).mpr hspell, ?_⟩
    rw [if_pos hlength]
    exact written_emit_yields_iff.mpr rfl

theorem forItems_u8_yields_iff :
    ((Write.forItems .unreadable items (visit e (levels + 1)
        (.primitive (.integer ⟨false, .w8⟩ shown)) item)).Yields bytes () ∧
      ∀ v ∈ items.toList, ∃ n, v = .int n) ↔ items.Spell bytes := by
  rw [Write.forItems_yields_iff]
  constructor
  · rintro ⟨⟨values, hopened, hvalues⟩, hints⟩
    rw [Items.toList_of_opened hopened] at hints
    obtain rfl := forEach_u8_yields_iff.mp ⟨hvalues, hints⟩
    exact hopened
  · intro hspell
    rw [hspell.toList_eq]
    obtain ⟨hown, hints⟩ := forEach_u8_yields_iff.mpr rfl
    exact ⟨⟨_, hspell, hown⟩, hints⟩

section

variable (hs : s.items? = some items)
  (hr : e.schema.resolve item = .ok (.primitive (.integer ⟨false, .w8⟩ shown)))

include hs hr

theorem vec_yields_iff :
    ((vec e.schema (visit e (levels + 1)) item s).Yields bytes () ∧
        ∀ v ∈ items.toList, ∃ n, v = .int n) ↔
      ∃ data, items.Spell data ∧ data.length < twoPow 32 ∧
        bytes = littleEndian 4 data.length ++ data := by
  have hvec : vec e.schema (visit e (levels + 1)) item s = (do
      let count ← counted items.count
      Output.ofExcept (checkCount count)
      written (Write.count count)
      Write.forItems .unreadable items
        (visit e (levels + 1) (.primitive (.integer ⟨false, .w8⟩ shown)) item)) := by
    rw [vec, hs, hr]
    rfl
  rw [hvec, counted, Output.yields_ofExcept_bind_iff]
  constructor
  · rintro ⟨⟨count, hcount, h⟩, hints⟩
    obtain ⟨hlt, own, hown, rfl⟩ := counted_yields_iff.mp h
    have hspell : items.Spell own := forItems_u8_yields_iff.mp ⟨hown, hints⟩
    obtain rfl : own.length = count :=
      Except.ok.inj (hspell.count.symm.trans (Output.mapError_eq_ok_iff.mp hcount))
    exact ⟨own, hspell, hlt, rfl⟩
  · rintro ⟨data, hspell, hlt, rfl⟩
    obtain ⟨hown, hints⟩ := forItems_u8_yields_iff.mpr hspell
    exact ⟨⟨data.length, Output.mapError_eq_ok_iff.mpr hspell.count,
      counted_yields_iff.mpr ⟨hlt, data, hown, rfl⟩⟩, hints⟩

theorem array_yields_iff {length : Nat} :
    ((array e.schema (visit e (levels + 1)) length item s).Yields bytes () ∧
        ∀ v ∈ items.toList, ∃ n, v = .int n) ↔
      items.Spell bytes ∧ bytes.length = length := by
  have harray : array e.schema (visit e (levels + 1)) length item s = (do
      let count ← counted items.count
      if count = length then
        Write.forItems .unreadable items
          (visit e (levels + 1) (.primitive (.integer ⟨false, .w8⟩ shown)) item)
      else Output.fail (.wrongLength length count)) := by
    rw [array, hs, hr]
    rfl
  rw [harray, counted, Output.yields_ofExcept_bind_iff]
  constructor
  · rintro ⟨⟨count, hcount, h⟩, hints⟩
    split at h
    · rename_i hlength
      have hspell : items.Spell bytes := forItems_u8_yields_iff.mp ⟨h, hints⟩
      have hsame := hspell.count.symm.trans (Output.mapError_eq_ok_iff.mp hcount)
      exact ⟨hspell, (Except.ok.inj hsame).trans hlength⟩
    · exact absurd h Output.not_yields_fail
  · rintro ⟨hspell, hlength⟩
    obtain ⟨hown, hints⟩ := forItems_u8_yields_iff.mpr hspell
    refine ⟨⟨bytes.length, Output.mapError_eq_ok_iff.mpr hspell.count, ?_⟩, hints⟩
    rw [if_pos hlength]
    exact hown

end

end Sequences

/-! ## Encoded at the root -/

/-- Two ways to encode byte sequences agree: a sequence is encoded in the one way as in the other, but
for items that are no integers, which only the other way may admit. Buffers of the bytes that a sequence
spells and texts that the display reads as these bytes are encoded like the sequence; and a view,
whatever it shows, is encoded like a buffer of the bytes below it. -/
structure FormsAgree (display : ByteDisplay) (maxLength : Nat)
    (own other : Value → Except EncodeError (List UInt8)) : Prop where
  sequence : ∀ {s items}, s.IsBytewise → s.items? = some items → ∀ bytes,
    own s = .ok bytes ↔ other s = .ok bytes ∧ ∀ v ∈ items.toList, ∃ n, v = .int n
  buffer : ∀ {s items data}, s.IsBytewise → s.items? = some items → items.Spell data → ∀ kind,
    own (.buffer kind data) = own s
  text : ∀ {s items data}, s.IsBytewise → s.items? = some items → items.Spell data → ∀ t,
    ByteText.parse display maxLength t = .ok data → own (.text t) = own s
  view : ∀ (shown : View) kind, own (.view shown) = own (.buffer kind shown.data)

section Root

variable {e e' : Encoder} {display : ByteDisplay} {own other : Ty}

theorem yields_iff_of_byteForms (h : e'.schema.ByteForms display own other) {s : Value}
    (hbytewise : s.IsBytewise) {items : Items} (hs : s.items? = some items) {levels levels' : Nat}
    {link link' : Link} {bytes : List UInt8} :
    (visit e (levels + 1) own link s).Yields bytes () ↔
      (visit e' (levels' + 2) other link' s).Yields bytes () ∧
        ∀ v ∈ items.toList, ∃ n, v = .int n := by
  cases h with
  | vec hr => exact (byteVec_yields_iff hbytewise hs).trans (vec_yields_iff hs hr).symm
  | array length hr => exact (byteArray_yields_iff hbytewise hs).trans (array_yields_iff hs hr).symm

theorem visit_eq_of_byteString {schema : Schema} (h : schema.ByteForms display own other)
    {v w : Value} {data : List UInt8}
    (hv : ∀ expected, byteString expected e.config.maxBech32Length display v = .ok data)
    (hw : ∀ expected, byteString expected e.config.maxBech32Length display w = .ok data)
    (levels : Nat) (link : Link) : visit e levels own link v = visit e levels own link w := by
  cases levels with
  | zero => rfl
  | succ levels =>
    cases h with
    | vec _ | array _ _ => simp only [visit, step, primitive, hv, hw]

/-- The forms agree on any number of levels that leave room for the items. -/
theorem formsAgree_encodeWithin {i j : Nat} (hi : e.schema.types[i]? = some own)
    (hj : e'.schema.types[j]? = some other) (h : e'.schema.ByteForms display own other)
    {levels levels' : Nat} (hlevels : 1 ≤ levels) (hlevels' : 2 ≤ levels') :
    FormsAgree display e.config.maxBech32Length (e.encodeWithin levels (.int i))
      (e'.encodeWithin levels' (.int j)) := by
  obtain ⟨levels, rfl⟩ := Nat.exists_eq_add_of_le' hlevels
  obtain ⟨levels', rfl⟩ := Nat.exists_eq_add_of_le' hlevels'
  have hroot := Encoder.encodeWithin_byIndex hi (levels + 1)
  have hroot' := Encoder.encodeWithin_byIndex hj (levels' + 2)
  have hsame : ∀ {v w : Value} (data : List UInt8),
      (∀ expected, byteString expected e.config.maxBech32Length display v = .ok data) →
      (∀ expected, byteString expected e.config.maxBech32Length display w = .ok data) →
      e.encodeWithin (levels + 1) (.int i) v = e.encodeWithin (levels + 1) (.int i) w := by
    intro v w data hv hw
    rw [hroot, hroot]
    exact congrArg Output.result (visit_eq_of_byteString h hv hw _ _)
  constructor
  case sequence =>
    intro s items hbytewise hs bytes
    rw [hroot, hroot', Output.result_eq_ok_iff_yields, Output.result_eq_ok_iff_yields]
    exact yields_iff_of_byteForms h hbytewise hs
  case buffer =>
    intro s items data hbytewise hs hspell kind
    exact hsame data (fun _ => rfl) fun _ => (byteString_eq_ok_iff hbytewise hs).mpr hspell
  case text =>
    intro s items data hbytewise hs hspell t ht
    refine hsame data (fun _ => ?_) fun _ => (byteString_eq_ok_iff hbytewise hs).mpr hspell
    rw [byteString, ht]
    rfl
  case view =>
    intro shown kind
    exact hsame shown.data (fun _ => rfl) fun _ => rfl

end Root

end Encode

namespace Encoder

/-- A sequence is encoded at a type of byte strings exactly if it is encoded at the type of sequences of
`u8` of the same form, and then to the same bytes, provided that all of its items are integers and that
it is no view of other items than its bytes. Every buffer with the bytes of the sequence, and every text
that the display reads as them within the limits, is encoded like the sequence. -/
theorem encode_byteForms {e e' : Encoder} {display : ByteDisplay} {own other : Ty} {i j : Nat}
    (hi : e.schema.types[i]? = some own) (hj : e'.schema.types[j]? = some other)
    (h : e'.schema.ByteForms display own other) :
    Encode.FormsAgree display e.config.maxBech32Length (e.encode (.int i)) (e'.encode (.int j)) ∧
      ∀ stack stack' : Stack, 1 ≤ stack.levels → 2 ≤ stack'.levels →
        Encode.FormsAgree display e.config.maxBech32Length (e.run stack (.int i))
          (e'.run stack' (.int j)) := by
  have hlevels : ∀ c : Config, 1 ≤ c.maxDepth + 1 := fun c => Nat.succ_pos c.maxDepth
  refine ⟨Encode.formsAgree_encodeWithin hi hj h (hlevels _) (two_le_levels e'.config), ?_⟩
  intro stack stack' hstack hstack'
  exact Encode.formsAgree_encodeWithin hi hj h (Nat.le_min.mpr ⟨hlevels _, hstack⟩)
    (two_le_room e'.config hstack')

end Encoder

/-- Byte strings and sequences of `u8`: of any length, and of two bytes. -/
def Schema.parcels : Schema :=
  build
    [.primitive (.byteVec (.hex none)), .vec (.byIndex 4), .primitive (.byteArray 2 (.decimal none)),
      .array 2 (.immediate (.integer ⟨false, .w8⟩ ⟨.decimal, none, none, none⟩)),
      .primitive (.integer ⟨false, .w8⟩ ⟨.hex, none, none, none⟩)]
    [0] [⟨"", []⟩, ⟨"", []⟩, ⟨"", []⟩, ⟨"", []⟩, ⟨"", []⟩] none [] []

/-- The numbers 1 and 0, downwards. -/
def Progression.countdown : Progression := ⟨1, -1, -1, by decide⟩

theorem Encoder.encode_parcels :
    encode ⟨.parcels, .default⟩ (.int 0) (.tuple [.int 1, .int 255]) = .ok [2, 0, 0, 0, 1, 255] ∧
      encode ⟨.parcels, .default⟩ (.int 1) (.tuple [.int 1, .int 255]) = .ok [2, 0, 0, 0, 1, 255] ∧
      encode ⟨.parcels, .default⟩ (.int 0) (.text "0x01fF") = .ok [2, 0, 0, 0, 1, 255] ∧
      encode ⟨.parcels, .default⟩ (.int 2) (.range .countdown) = .ok [1, 0] ∧
      encode ⟨.parcels, .default⟩ (.int 3) (.range .countdown) = .ok [1, 0] ∧
      run ⟨.parcels, .default⟩ ⟨2, 2⟩ (.int 2) (.view (.ofBytes [1, 0])) = .ok [1, 0] := by
  have hvec : Schema.parcels.ByteForms (.hex none) (.primitive (.byteVec (.hex none)))
      (.vec (.byIndex 4)) := .vec rfl
  have harray : Schema.parcels.ByteForms (.decimal none) (.primitive (.byteArray 2 (.decimal none)))
      (.array 2 (.immediate (.integer ⟨false, .w8⟩ ⟨.decimal, none, none, none⟩))) := .array 2 rfl
  obtain ⟨hforms, -⟩ := @encode_byteForms ⟨.parcels, .default⟩ ⟨.parcels, .default⟩ _ _ _ 0 1
    rfl rfl hvec
  obtain ⟨hforms', hrun⟩ := @encode_byteForms ⟨.parcels, .default⟩ ⟨.parcels, .default⟩ _ _ _ 2 3
    rfl rfl harray
  have hspell : (Items.listed [.int 1, .int 255]).Spell [1, 255] := rfl
  have hspaced : (Items.spaced .countdown).Spell [1, 0] := rfl
  have htuple : encode ⟨.parcels, .default⟩ (.int 0) (.tuple [.int 1, .int 255]) =
      .ok [2, 0, 0, 0, 1, 255] := rfl
  have hrange : encode ⟨.parcels, .default⟩ (.int 2) (.range .countdown) = .ok [1, 0] := rfl
  have hpair : Value.IsBytewise (.tuple [.int 1, .int 255]) := nofun
  have hdown : Value.IsBytewise (.range .countdown) := nofun
  have htext : encode ⟨.parcels, .default⟩ (.int 0) (.text "0x01fF") =
      encode ⟨.parcels, .default⟩ (.int 0) (.tuple [.int 1, .int 255]) :=
    hforms.text hpair rfl hspell "0x01fF" rfl
  have hrun := hrun ⟨2, 2⟩ ⟨2, 2⟩ (by decide) (by decide)
  have hview : run ⟨.parcels, .default⟩ ⟨2, 2⟩ (.int 2) (.view (.ofBytes [1, 0])) =
      run ⟨.parcels, .default⟩ ⟨2, 2⟩ (.int 2) (.range .countdown) :=
    (hrun.view _ .frozen).trans (hrun.buffer hdown rfl hspaced .frozen)
  exact ⟨htuple, ((hforms.sequence hpair rfl _).mp htuple).1, htext.trans htuple, hrange,
    ((hforms'.sequence hdown rfl _).mp hrange).1, hview.trans rfl⟩

/-- The number 7 in four bytes. -/
def View.word : View := ⟨.integer ⟨false, .w32⟩ (by decide), [1], [7, 0, 0, 0], rfl⟩

/-- Byte strings under a human-readable part. -/
def Schema.addresses : Schema :=
  build [.primitive (.byteVec (.checksummed .bech32 "k" (List.cons_ne_nil _ _)))] [0] [⟨"", []⟩]
    none [] []

/-- Limits under which a checksummed text is no longer than it has to be. -/
def Config.terse : Config := ⟨256, minBech32Length, Nat.succ_pos 255, Nat.le_refl _⟩

/-- Of a view of words the one type takes the bytes and the other the words. And a text that the
display reads is refused where it is longer than the limits allow. -/
theorem Encoder.encode_words_differs :
    encode ⟨.parcels, .default⟩ (.int 0) (.view .word) = .ok [4, 0, 0, 0, 7, 0, 0, 0] ∧
      encode ⟨.parcels, .default⟩ (.int 1) (.view .word) = .ok [1, 0, 0, 0, 7] ∧
      ByteText.parse (.checksummed .bech32 "k" (by decide)) 90 "k1qqqslahnjd" = .ok [0, 1] ∧
      encode ⟨.addresses, .terse⟩ (.int 0) (.buffer .frozen [0, 1]) = .ok [2, 0, 0, 0, 0, 1] ∧
      encode ⟨.addresses, .terse⟩ (.int 0) (.text "k1qqqslahnjd") =
        .error (.byteText (.bech32 .bech32 "k1qqqslahnjd" .tooLong)) := by
  have hrender : Bech32.render .bech32 "k" [0, 1] = "k1qqqslahnjd" := by decide
  have hparse : Bech32.parse .bech32 "k" 90 "k1qqqslahnjd" = .ok [0, 1] :=
    hrender ▸ Bech32.parse_render_of_validHrp (by decide) (by decide) (by rw [hrender]; decide)
  exact ⟨rfl, rfl, ByteText.checksummed_parses_iff.mpr hparse, rfl, rfl⟩

end BorshWire
