import BorshWire.Text.Basic

/-!
# Ranges of numbers

The numbers from a start on, a fixed step apart, that come before a stop. However many there are,
a range is three numbers; it is counted through only as far as somebody asks.
-/

namespace BorshWire

/-- A range: the numbers `start`, `start + step`, `start + 2 * step` and so on before `stop`. -/
structure Progression where
  start : Int
  stop : Int
  step : Int
  step_ne : step ≠ 0
  deriving DecidableEq

namespace Progression

/-- The range of the numbers below a count. -/
def upTo (count : Nat) : Progression := ⟨0, count, 1, by decide⟩

instance : Inhabited Progression := ⟨upTo 0⟩

/-- The number of items: the distance to the stop in steps, rounded up. -/
def length (r : Progression) : Nat :=
  if 0 < r.step then ((r.stop - r.start + r.step - 1) / r.step).toNat
  else ((r.start - r.stop - r.step - 1) / -r.step).toNat

/-- The item at a position. -/
def item (r : Progression) (position : Nat) : Int := r.start + r.step * position

/-- The first items, at most so many. -/
def first (r : Progression) (count : Nat) : List Int :=
  (List.range (min count r.length)).map r.item

/-- The items one by one. -/
def toList (r : Progression) : List Int := (List.range r.length).map r.item

@[simp] theorem length_toList (r : Progression) : r.toList.length = r.length := by
  rw [toList, List.length_map, List.length_range]

theorem first_eq_take (r : Progression) (count : Nat) : r.first count = r.toList.take count := by
  rw [first, toList, ← List.map_take, List.take_range]

@[simp] theorem length_upTo (count : Nat) : (upTo count).length = count := by
  have hdistance : (count : Int) - 0 + 1 - 1 = count := by omega
  simp only [length, upTo, if_pos Int.one_pos, hdistance, Int.ediv_one, Int.toNat_natCast]

/-- Neighbours are one step apart, so that items are as far apart as their positions say. -/
theorem item_add (r : Progression) (i j : Nat) : r.item (i + j) = r.item i + r.step * j := by
  rw [item, item, Int.natCast_add, Int.mul_add, Int.add_assoc]

/-- More items than there are bytes: of so many neighbours one is no byte. -/
def maxByteItems : Nat := 257

theorem exists_not_byte {r : Progression} (h : maxByteItems ≤ r.length) :
    ∃ n ∈ r.first maxByteItems, ¬(0 ≤ n ∧ n ≤ 255) := by
  have hmem : ∀ i < 257, r.item i ∈ r.first maxByteItems := fun i hi =>
    List.mem_map_of_mem (List.mem_range.mpr (Nat.lt_min.mpr ⟨hi, Nat.lt_of_lt_of_le hi h⟩))
  by_cases hfirst : 0 ≤ r.item 0 ∧ r.item 0 ≤ 255
  · refine ⟨r.item 256, hmem 256 (by decide), fun hlast => r.step_ne ?_⟩
    have hitem : r.item 256 = r.item 0 + r.step * 256 := r.item_add 0 256
    omega
  · exact ⟨r.item 0, hmem 0 (by decide), hfirst⟩

/-- What is refused outside of the bytes is refused of a range within its first items. -/
theorem mapM_first {ε α : Type} {f : Int → Except ε α}
    (hf : ∀ n, ¬(0 ≤ n ∧ n ≤ 255) → ∃ err, f n = .error err) (r : Progression) :
    (r.first maxByteItems).mapM f = r.toList.mapM f := by
  rw [first_eq_take]
  by_cases h : r.length ≤ maxByteItems
  · rw [List.take_of_length_le (r.length_toList ▸ h)]
  · obtain ⟨n, hn, hbyte⟩ := exists_not_byte (Nat.le_of_not_le h)
    rw [first_eq_take] at hn
    have hfails : ∃ err, (r.toList.take maxByteItems).mapM f = .error err := by
      generalize r.toList.take maxByteItems = items at hn
      induction items with
      | nil => cases hn
      | cons m rest ih =>
        rw [List.mapM_cons]
        cases hm : f m with
        | error err => exact ⟨err, rfl⟩
        | ok a =>
          rcases List.mem_cons.mp hn with rfl | hrest
          · obtain ⟨err, herr⟩ := hf n hbyte
            cases herr.symm.trans hm
          · obtain ⟨err, herr⟩ := ih hrest
            exact ⟨err, by rw [herr]; rfl⟩
    obtain ⟨err, herr⟩ := hfails
    have hwhole : r.toList.mapM f =
        (r.toList.take maxByteItems ++ r.toList.drop maxByteItems).mapM f := by
      rw [List.take_append_drop]
    rw [hwhole, List.mapM_append, herr]
    rfl

/-- The same numbers in the same order. -/
def sameItems (r s : Progression) : Bool := decide (r.length = s.length) &&
  (r.length = 0 || r.start = s.start && (r.length = 1 || r.step = s.step))

/-- A range as it is called for; a step of one goes without saying. -/
def literal (r : Progression) : Text :=
  let bounds := Text.concat ["range(", Text.ofInt r.start, ", ", Text.ofInt r.stop]
  if r.step = 1 then Text.concat [bounds, ")"]
  else Text.concat [bounds, ", ", Text.ofInt r.step, ")"]

end Progression

end BorshWire
