import BorshWire.Proofs.Bytes.Utf8Order
import BorshWire.Proofs.Context
import BorshWire.Proofs.KeyedMaps

/-!
# Texts as keys

`Encoder.stringMap_canonical`: a map with text keys is encoded canonically. After the number of its
entries every entry stands once, and the bytes of the keys ascend. The entries are sorted by the code
points of the keys, which is the order of their bytes (`Text.lt_iff_of_utf8?`), and as the keys of a
mapping are distinct the order is strict.
-/

namespace BorshWire

open Value (entriesOf)

theorem forall₂_map_eq_iff {α β : Type} {f : α → β} {P : α → Prop} {xs : List α} {ys : List β} :
    List.Forall₂ (fun b a => f a = b ∧ P a) ys xs ↔ xs.map f = ys ∧ ∀ a ∈ xs, P a := by
  constructor
  · intro h
    induction h with
    | nil => exact ⟨rfl, List.forall_mem_nil _⟩
    | cons ha _ ih => exact ⟨congrArg₂ _ ha.1 ih.1, List.forall_mem_cons.mpr ⟨ha.2, ih.2⟩⟩
  · rintro ⟨rfl, h⟩
    rw [List.forall₂_map_left_iff, List.forall₂_same]
    exact fun a ha => ⟨rfl, h a ha⟩

namespace Encode

/-! ## Entries under text keys -/

/-- An entry of a map under a text key, with the bytes of the text and those of the value. -/
structure TextEntry where
  key : Text
  value : Value
  utf8 : List UInt8
  bytes : List UInt8

namespace TextEntry

/-- The entry as it stands in the mapping. -/
def member (x : TextEntry) : Text × Value := (x.key, x.value)

/-- The bytes of the key after their count. -/
def keyBytes (x : TextEntry) : List UInt8 := littleEndian 4 x.utf8.length ++ x.utf8

/-- The key and the value are encoded so. -/
structure Encoded (e : Encoder) (levels : Nat) (valueType : Ty) (link : Link) (x : TextEntry) :
    Prop where
  utf8 : x.key.utf8? = some x.utf8
  length : x.utf8.length < twoPow 32
  bytes : (visit e levels valueType link x.value).Yields x.bytes ()

end TextEntry

/-- A map is encoded canonically: the number of its members, and then every member once, by ascending
bytes of the keys. -/
structure CanonicalMap (e : Encoder) (levels : Nat) (valueType : Ty) (value : Link) (m : Mapping)
    (members : List (Text × Value)) (xs : List TextEntry) (own : List UInt8) : Prop where
  counted : ∃ count, m.count = .ok count ∧ count ≤ maxCount
  length : members.length < twoPow 32
  resolved : e.schema.resolve value = .ok valueType
  perm : (xs.map TextEntry.member).Perm members
  encoded : ∀ x ∈ xs, x.Encoded e levels valueType value
  ascending : xs.Pairwise fun x y => x.utf8 < y.utf8
  bytes : own = littleEndian 4 members.length ++ xs.flatMap fun x => x.keyBytes ++ x.bytes

section Entries

variable {e : Encoder} {levels : Nat} {key value : Link} {valueType : Ty}

theorem keyed_string_yields_iff {t : Text} {own : List UInt8} :
    (keyed (visit e (levels + 1)) (.primitive .string) key t).Yields own () ↔
      ∃ data, t.utf8? = some data ∧ data.length < twoPow 32 ∧
        own = littleEndian 4 data.length ++ data :=
  written_yields_iff.trans Write.string_yields_iff

theorem entryYields_iff {entry : Text × Value} {part : List UInt8 × List UInt8} :
    EntryYields (visit e levels) (keyed (visit e levels) (.primitive .string) key) valueType value
        entry part ↔
      ∃ x : TextEntry, (x.member = entry ∧ x.Encoded e levels valueType value) ∧
        part = (x.keyBytes, x.bytes) := by
  obtain ⟨t, v⟩ := entry
  obtain ⟨front, back⟩ := part
  cases levels with
  | zero => exact ⟨fun h => absurd h.value Output.not_yields_fail,
      fun ⟨_, ⟨_, h⟩, _⟩ => absurd h.bytes Output.not_yields_fail⟩
  | succ levels =>
    constructor
    · rintro ⟨hkey, hvalue⟩
      obtain ⟨data, hdata, hlength, rfl⟩ := keyed_string_yields_iff.mp hkey
      exact ⟨⟨t, v, data, back⟩, ⟨rfl, hdata, hlength, hvalue⟩, rfl⟩
    · rintro ⟨⟨_, _, data, _⟩, ⟨⟨⟩, hdata, hlength, hvalue⟩, ⟨⟩⟩
      exact ⟨keyed_string_yields_iff.mpr ⟨data, hdata, hlength, rfl⟩, hvalue⟩

theorem entriesYield_iff {entries : List (Text × Value)} {parts : List (List UInt8 × List UInt8)} :
    List.Forall₂ (EntryYields (visit e levels) (keyed (visit e levels) (.primitive .string) key)
        valueType value) entries parts ↔
      ∃ xs : List TextEntry, (xs.map TextEntry.member = entries ∧
        ∀ x ∈ xs, x.Encoded e levels valueType value) ∧
        parts = xs.map fun x => (x.keyBytes, x.bytes) := by
  have hentry : EntryYields (visit e levels) (keyed (visit e levels) (.primitive .string) key)
      valueType value = fun entry part => ∃ x : TextEntry,
        (x.member = entry ∧ x.Encoded e levels valueType value) ∧
          part = (x.keyBytes, x.bytes) := by
    funext entry part
    exact propext entryYields_iff
  rw [hentry, forall₂_exists_iff]
  exact exists_congr fun xs => and_congr_left fun _ => forall₂_map_eq_iff

/-- Of entries with distinct keys those in order are the ones whose bytes ascend. -/
theorem map_member_eq_sorted_iff {members : List (Text × Value)}
    (distinct : (members.map Prod.fst).Nodup) {xs : List TextEntry}
    (hencoded : ∀ x ∈ xs, x.Encoded e levels valueType value) :
    xs.map TextEntry.member = sortedEntries (entriesOf members) ↔
      (xs.map TextEntry.member).Perm members ∧ xs.Pairwise fun x y => x.utf8 < y.utf8 := by
  have hsorted : sortedEntries (entriesOf members) =
      members.mergeSort fun a b => textLE a.1 b.1 := by
    rw [sortedEntries, entriesOf, List.map_map]
    exact congrArg (List.mergeSort · _) (List.map_id _)
  have horder : ∀ x ∈ xs, ∀ y ∈ xs,
      x.utf8 < y.utf8 ↔ textLE x.key y.key = true ∧ x.key ≠ y.key :=
    fun x hx y hy => Text.lt_iff_of_utf8? (hencoded x hx).utf8 (hencoded y hy).utf8
  rw [hsorted]
  constructor
  · intro h
    have hperm : (xs.map TextEntry.member).Perm members := h ▸ List.mergeSort_perm _ _
    have hle : (xs.map TextEntry.member).Pairwise fun a b => textLE a.1 b.1 = true :=
      h ▸ pairwise_sorted members
    have hne : ((xs.map TextEntry.member).map Prod.fst).Nodup :=
      (hperm.map Prod.fst).nodup_iff.mpr distinct
    rw [List.pairwise_map] at hle
    rw [List.map_map, List.Nodup, List.pairwise_map] at hne
    refine ⟨hperm, (hle.and hne).imp_of_mem fun hx hy h => ?_⟩
    exact (horder _ hx _ hy).mpr h
  · rintro ⟨hperm, hascending⟩
    have hle : (xs.map TextEntry.member).Pairwise fun a b => textLE a.1 b.1 = true := by
      rw [List.pairwise_map]
      exact hascending.imp_of_mem fun hx hy h => ((horder _ hx _ hy).mp h).1
    rw [← sorted_eq_of_perm hperm ((hperm.map Prod.fst).nodup_iff.mpr distinct)]
    exact (List.mergeSort_of_pairwise hle).symm

/-- A map with distinct text keys is encoded canonically or not at all. -/
theorem map_yields_iff_canonical {v : Value} {m : Mapping}
    (hkey : e.schema.resolve key = .ok (.primitive .string)) (hm : v.mapping? = some m)
    {members : List (Text × Value)} (hmembers : m.entries = entriesOf members)
    (distinct : (members.map Prod.fst).Nodup) {own : List UInt8} :
    (map e.schema (visit e levels) key value v).Yields own () ↔
      ∃ valueType xs, CanonicalMap e levels valueType value m members xs own := by
  have hlength : (entriesOf members).length = members.length := List.length_map _
  have hkeys : checkKeys (entriesOf members) = .ok () := by
    refine checkKeys_of_texts fun entry hentry => ?_
    obtain ⟨member, _, rfl⟩ := List.mem_map.mp hentry
    exact ⟨member.1, rfl⟩
  rw [map_eq_mapWith hkey, mapWith_yields_iff hm, hmembers, hlength]
  constructor
  · rintro ⟨hcount, _, hfits, valueType, parts, hvalue, hparts, rfl⟩
    obtain ⟨xs, ⟨hsorted, hencoded⟩, rfl⟩ := entriesYield_iff.mp hparts
    obtain ⟨hperm, hascending⟩ := (map_member_eq_sorted_iff distinct hencoded).mp hsorted
    exact ⟨valueType, xs, hcount, hfits, hvalue, hperm, hencoded, hascending,
      by rw [List.flatMap_map]⟩
  · rintro ⟨valueType, xs, h⟩
    have hsorted := (map_member_eq_sorted_iff distinct h.encoded).mpr ⟨h.perm, h.ascending⟩
    refine ⟨h.counted, hkeys, h.length, valueType, _, h.resolved,
      entriesYield_iff.mpr ⟨xs, ⟨hsorted, h.encoded⟩, rfl⟩, ?_⟩
    rw [h.bytes, List.flatMap_map]

end Entries

end Encode

namespace Encoder

open Encode (visit TextEntry CanonicalMap)

/-- A map with text keys is encoded canonically, wherever it stands. What is put out for a mapping with
these members is the number of the members, and then the key and the value of every member, each
member once and in the order in which the bytes of the keys ascend; and every mapping for which
there are such bytes is accepted. -/
theorem stringMap_canonical (e : Encoder) {key value : Link}
    (hkey : e.schema.resolve key = .ok (.primitive .string)) {v : Value} {m : Mapping}
    (hm : v.mapping? = some m) {members : List (Text × Value)}
    (hmembers : m.entries = entriesOf members) (distinct : (members.map Prod.fst).Nodup) :
    (∀ levels link own, (visit e (levels + 1) (.map key value) link v).Yields own () ↔
      ∃ valueType xs, CanonicalMap e levels valueType value m members xs own) ∧
    ∀ (i : Nat) own, e.schema.types[i]? = some (.map key value) →
      (e.encode (.int i) v = .ok own ↔
        ∃ valueType xs, CanonicalMap e e.config.maxDepth valueType value m members xs own) := by
  refine ⟨fun levels link own => Encode.map_yields_iff_canonical hkey hm hmembers distinct,
    fun i own htype => ?_⟩
  rw [encode_byIndex htype, Output.result_eq_ok_iff_yields]
  exact Encode.map_yields_iff_canonical hkey hm hmembers distinct

/-- Flags by name. -/
def flags : Encoder :=
  ⟨.build [.map (.immediate .string) (.immediate .boolean)] [0] [⟨"", []⟩] none [] [], .default⟩

/-- Two flags. The name of the first one takes four bytes, that of the second one three. -/
def twoFlags : List (Text × Value) := [([0x10000], .bool true), ([0xFFFD], .bool false)]

/-- How they are written. -/
def twoEntries : List TextEntry :=
  [⟨[0xFFFD], .bool false, [0xEF, 0xBF, 0xBD], [0]⟩,
    ⟨[0x10000], .bool true, [0xF0, 0x90, 0x80, 0x80], [1]⟩]

theorem flags_canonical :
    (twoFlags.map Prod.fst).Nodup ∧
      flags.encode (.int 0) (.map (entriesOf twoFlags)) =
        .ok [2, 0, 0, 0, 3, 0, 0, 0, 0xEF, 0xBF, 0xBD, 0, 4, 0, 0, 0, 0xF0, 0x90, 0x80, 0x80, 1] := by
  have hdistinct : (twoFlags.map Prod.fst).Nodup := by decide
  have hencoded : ∀ x ∈ twoEntries,
      x.Encoded flags 256 (.primitive .boolean) (.immediate .boolean) := by
    refine List.forall_mem_cons.mpr ⟨⟨rfl, by decide, rfl⟩, List.forall_mem_singleton.mpr ?_⟩
    exact ⟨rfl, by decide, rfl⟩
  have hkey : flags.schema.resolve (.immediate .string) = .ok (.primitive .string) := rfl
  have hmapping : (Value.map (entriesOf twoFlags)).mapping? = some ⟨.ok 2, entriesOf twoFlags⟩ :=
    rfl
  obtain ⟨_, hencode⟩ := stringMap_canonical flags hkey hmapping rfl hdistinct
  refine ⟨hdistinct, (hencode 0 _ rfl).mpr ⟨_, twoEntries, ⟨2, rfl, by decide⟩, by decide, rfl,
    .swap _ _ _, hencoded, by decide, rfl⟩⟩

end Encoder

end BorshWire
