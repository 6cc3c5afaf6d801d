import BorshWire.Proofs.MapKeys

/-!
# Maps by their keys

What a map does with the text of a key depends on the type of its keys only. `map_eq_mapWith` puts this
apart from the rest, and `mapWith_yields_iff` says how a map is written whose keys are written in a
given way.
-/

namespace BorshWire

/-- Images of related items, chosen for one item after the other, are the images of a list. -/
theorem forall₂_exists_iff {α β γ : Type} {R : α → γ → Prop} {f : γ → β} {xs : List α}
    {ys : List β} :
    List.Forall₂ (fun a b => ∃ c, R a c ∧ b = f c) xs ys ↔
      ∃ cs, List.Forall₂ R xs cs ∧ ys = cs.map f := by
  constructor
  · intro h
    induction h with
    | nil => exact ⟨[], .nil, rfl⟩
    | cons hab _ ih =>
      obtain ⟨c, hc, rfl⟩ := hab
      obtain ⟨cs, hcs, rfl⟩ := ih
      exact ⟨c :: cs, .cons hc hcs, rfl⟩
  · rintro ⟨cs, hcs, rfl⟩
    rw [List.forall₂_map_right_iff]
    exact hcs.imp fun _ c hc => ⟨c, hc, rfl⟩

namespace Encode

/-- Writes the text of a key. -/
def keyed (next : Visit) (type : Ty) (key : Link) (t : Text) : Output EncodeError Unit := do
  let k ← Output.ofExcept (keyValue type t)
  next type key k

/-- Writes a map whose keys are written in the given way. -/
def mapWith (s : Schema) (next : Visit) (writeKey : Text → Output EncodeError Unit) (value : Link)
    (v : Value) : Output EncodeError Unit :=
  match v.mapping? with
  | none => Output.fail (.unexpected "map" v)
  | some m => do
    let count ← counted m.count
    Output.ofExcept (checkCount count)
    let valueType ← Output.ofExcept ((s.resolve value).mapError .unresolved)
    Output.ofExcept (checkKeys m.entries)
    let entries := sortedEntries m.entries
    written (Write.count entries.length)
    Output.forEach (fun e => do
      writeKey e.1
      next valueType value e.2) entries

theorem map_eq_mapWith {s : Schema} {key : Link} {type : Ty} (h : s.resolve key = .ok type)
    (next : Visit) (value : Link) (v : Value) :
    map s next key value v = mapWith s next (keyed next type key) value v := by
  unfold map mapWith
  cases v.mapping? with
  | none => rfl
  | some m =>
    simp only [keyed, bind_assoc, h]
    rfl

/-- An entry of a map is written so: its key, then its value. -/
structure EntryYields (next : Visit) (writeKey : Text → Output EncodeError Unit) (valueType : Ty)
    (value : Link) (entry : Text × Value) (part : List UInt8 × List UInt8) : Prop where
  key : (writeKey entry.1).Yields part.1 ()
  value : (next valueType value entry.2).Yields part.2 ()

section MapWith

variable {s : Schema} {next : Visit} {writeKey : Text → Output EncodeError Unit} {value : Link}

theorem entries_yields_iff {valueType : Ty} {entries : List (Text × Value)} {own : List UInt8} :
    (Output.forEach (fun e => do
        writeKey e.1
        next valueType value e.2) entries).Yields own () ↔
      ∃ parts, List.Forall₂ (EntryYields next writeKey valueType value) entries parts ∧
        own = parts.flatMap fun part => part.1 ++ part.2 := by
  have hentry : ∀ (e : Text × Value) (part : List UInt8),
      (writeKey e.1 >>= fun _ => next valueType value e.2).Yields part () ↔
        ∃ pair, EntryYields next writeKey valueType value e pair ∧ part = pair.1 ++ pair.2 := by
    intro e part
    rw [Output.yields_bind_iff]
    constructor
    · rintro ⟨front, _, back, hfront, hback, rfl⟩
      exact ⟨(front, back), ⟨hfront, hback⟩, rfl⟩
    · rintro ⟨⟨front, back⟩, ⟨hfront, hback⟩, rfl⟩
      exact ⟨front, (), back, hfront, hback, rfl⟩
  simp only [Output.yields_forEach_iff, hentry, forall₂_exists_iff]
  constructor
  · rintro ⟨_, ⟨parts, hparts, rfl⟩, rfl⟩
    exact ⟨parts, hparts, rfl⟩
  · rintro ⟨parts, hparts, rfl⟩
    exact ⟨_, ⟨parts, hparts, rfl⟩, rfl⟩

/-- A map is written as the number of its entries and the entries by ascending key text. -/
theorem mapWith_yields_iff {v : Value} {m : Mapping} (hm : v.mapping? = some m) {own : List UInt8} :
    (mapWith s next writeKey value v).Yields own () ↔
      (∃ count, m.count = .ok count ∧ count ≤ maxCount) ∧ checkKeys m.entries = .ok () ∧
        m.entries.length < twoPow 32 ∧
        ∃ valueType parts, s.resolve value = .ok valueType ∧
          List.Forall₂ (EntryYields next writeKey valueType value) (sortedEntries m.entries) parts ∧
          own = littleEndian 4 m.entries.length ++ parts.flatMap fun part => part.1 ++ part.2 := by
  unfold mapWith
  rw [hm]
  constructor
  · intro h
    obtain ⟨count, hcount, h⟩ := Output.yields_ofExcept_bind_iff.mp h
    obtain ⟨_, hmax, h⟩ := Output.yields_ofExcept_bind_iff.mp h
    obtain ⟨valueType, hvalue, h⟩ := Output.yields_ofExcept_bind_iff.mp h
    obtain ⟨_, hkeys, h⟩ := Output.yields_ofExcept_bind_iff.mp h
    obtain ⟨front, _, back, hfront, hback, rfl⟩ := Output.yields_bind_iff.mp h
    obtain ⟨hlength, rfl⟩ := Write.count_yields_iff.mp (written_yields_iff.mp hfront)
    obtain ⟨parts, hparts, rfl⟩ := entries_yields_iff.mp hback
    rw [length_sortedEntries] at hlength ⊢
    exact ⟨⟨count, Output.mapError_eq_ok_iff.mp hcount, checkCount_eq_ok_iff.mp hmax⟩, hkeys,
      hlength, valueType, parts, Output.mapError_eq_ok_iff.mp hvalue, hparts, rfl⟩
  · rintro ⟨⟨count, hcount, hmax⟩, hkeys, hlength, valueType, parts, hvalue, hparts, rfl⟩
    refine Output.yields_ofExcept_bind_iff.mpr ⟨count, Output.mapError_eq_ok_iff.mpr hcount, ?_⟩
    refine Output.yields_ofExcept_bind_iff.mpr ⟨(), checkCount_eq_ok_iff.mpr hmax, ?_⟩
    refine Output.yields_ofExcept_bind_iff.mpr ⟨valueType, Output.mapError_eq_ok_iff.mpr hvalue, ?_⟩
    refine Output.yields_ofExcept_bind_iff.mpr ⟨(), hkeys, ?_⟩
    rw [← length_sortedEntries] at hlength ⊢
    exact Output.yields_bind_iff.mpr ⟨_, (), _,
      written_yields_iff.mpr (Write.count_yields_iff.mpr ⟨hlength, rfl⟩),
      entries_yields_iff.mpr ⟨parts, hparts, rfl⟩, rfl⟩

end MapWith

end Encode

end BorshWire
