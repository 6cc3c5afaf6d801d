import BorshWire.Schema.Basic
import Mathlib.Data.List.Nodup

/-!
# Where a name stands

`NameTable.position?_eq_idxOf?`: the table of a row of names gives for every name the first place
where the row has it (`NameTable.position?_eq_some_iff`). It has one entry for each name
(`NameTable.mem_positions_iff`).
-/

namespace BorshWire

namespace NameTable

theorem lookup_append_singleton (name n : Text) (positions : List (Text × Nat)) (i : Nat) :
    lookup name (positions ++ [(n, i)]) =
      (lookup name positions).or (if n = name then some i else none) := by
  induction positions with
  | nil => rfl
  | cons entry positions ih =>
    obtain ⟨m, j⟩ := entry
    rw [List.cons_append, lookup, lookup, ih]
    split <;> rfl

theorem lookup_enter (name : Text) (names : List Text) (positions : List (Text × Nat))
    (start : Nat) :
    lookup name (enter positions start names) =
      (lookup name positions).or ((names.idxOf? name).map (start + ·)) := by
  induction names generalizing positions start with
  | nil => exact (Option.or_none).symm
  | cons n names ih =>
    have hlater : (names.idxOf? name).map (start + 1 + ·) =
        ((names.idxOf? name).map (· + 1)).map (start + ·) := by
      rw [Option.map_map]
      exact Option.map_congr fun i _ => by simp only [Function.comp_apply]; omega
    rw [enter, ih, List.idxOf?_cons]
    by_cases hn : n = name
    · rw [hn, if_pos (beq_self_eq_true name)]
      cases hlookup : lookup name positions with
      | none =>
        dsimp only
        rw [lookup_append_singleton, hlookup, if_pos rfl]
        rfl
      | some i =>
        dsimp only
        rw [hlookup]
        rfl
    · rw [if_neg fun h => hn (eq_of_beq h), hlater]
      cases lookup n positions with
      | none =>
        dsimp only
        rw [lookup_append_singleton, if_neg hn, Option.or_none]
      | some i => rfl

theorem position?_eq_idxOf? (t : NameTable) (name : Text) :
    t.position? name = t.names.idxOf? name := by
  unfold position?
  rw [t.positions_eq, lookup_enter]
  show (t.names.idxOf? name).map (0 + ·) = t.names.idxOf? name
  rw [funext Nat.zero_add]
  exact Option.map_id'

/-- The first place of a row that has a name. -/
def FirstAt (names : List Text) (name : Text) (place : Nat) : Prop :=
  names[place]? = some name ∧ ∀ earlier < place, names[earlier]? ≠ some name

theorem idxOf?_eq_some_iff_firstAt {names : List Text} {name : Text} {place : Nat} :
    names.idxOf? name = some place ↔ FirstAt names name place := by
  rw [List.idxOf?_eq_some_iff]
  constructor
  · rintro ⟨hlt, hname, hfirst⟩
    refine ⟨List.getElem?_eq_some_iff.mpr ⟨hlt, hname⟩, fun j hj hother => ?_⟩
    obtain ⟨_, hother⟩ := List.getElem?_eq_some_iff.mp hother
    exact hfirst j hj hother
  · rintro ⟨hplace, hfirst⟩
    obtain ⟨hlt, hname⟩ := List.getElem?_eq_some_iff.mp hplace
    refine ⟨hlt, hname, fun j hj hother => ?_⟩
    exact hfirst j hj (List.getElem?_eq_some_iff.mpr ⟨Nat.lt_trans hj hlt, hother⟩)

theorem position?_eq_some_iff (t : NameTable) {name : Text} {place : Nat} :
    t.position? name = some place ↔ FirstAt t.names name place := by
  rw [position?_eq_idxOf?, idxOf?_eq_some_iff_firstAt]

theorem position?_eq_none_iff (t : NameTable) {name : Text} :
    t.position? name = none ↔ name ∉ t.names := by
  rw [position?_eq_idxOf?, List.idxOf?_eq_none_iff]

/-! ## Entries -/

theorem lookup_eq_none_iff {name : Text} {positions : List (Text × Nat)} :
    lookup name positions = none ↔ name ∉ positions.map Prod.fst := by
  induction positions with
  | nil => exact ⟨fun _ => List.not_mem_nil, fun _ => rfl⟩
  | cons entry positions ih =>
    obtain ⟨m, j⟩ := entry
    rw [lookup, List.map_cons, List.mem_cons, not_or, ← ih]
    by_cases hm : m = name
    · rw [if_pos hm]
      exact ⟨nofun, fun h => absurd hm.symm h.1⟩
    · rw [if_neg hm]
      exact ⟨fun h => ⟨fun h' => hm h'.symm, h⟩, fun h => h.2⟩

theorem lookup_eq_some_iff {name : Text} {place : Nat} {positions : List (Text × Nat)}
    (h : (positions.map Prod.fst).Nodup) :
    lookup name positions = some place ↔ (name, place) ∈ positions := by
  induction positions with
  | nil => exact ⟨nofun, nofun⟩
  | cons entry positions ih =>
    obtain ⟨m, j⟩ := entry
    rw [List.map_cons, List.nodup_cons] at h
    rw [lookup, List.mem_cons, Prod.mk.injEq]
    by_cases hm : m = name
    · subst hm
      have hother : (m, place) ∉ positions := fun hmem =>
        h.1 (List.mem_map.mpr ⟨_, hmem, rfl⟩)
      rw [if_pos rfl, Option.some.injEq]
      exact ⟨fun hj => .inl ⟨rfl, hj.symm⟩, fun hmem => (hmem.resolve_right hother).2.symm⟩
    · rw [if_neg hm, ih h.2]
      exact ⟨.inr, fun hmem => hmem.resolve_left fun heq => hm heq.1.symm⟩

theorem nodup_enter (names : List Text) {positions : List (Text × Nat)}
    (h : (positions.map Prod.fst).Nodup) (start : Nat) :
    ((enter positions start names).map Prod.fst).Nodup := by
  induction names generalizing positions start with
  | nil => exact h
  | cons name names ih =>
    rw [enter]
    cases hlookup : lookup name positions with
    | some place => exact ih h (start + 1)
    | none =>
      refine ih ?_ (start + 1)
      rw [List.map_append]
      exact h.append (List.nodup_singleton name)
        (List.disjoint_singleton.mpr (lookup_eq_none_iff.mp hlookup))

/-- The entries are the names of the row with their first places. -/
theorem mem_positions_iff (t : NameTable) {name : Text} {place : Nat} :
    (name, place) ∈ t.positions ↔ FirstAt t.names name place := by
  have hnodup : (t.positions.map Prod.fst).Nodup := by
    have hnil : (([] : List (Text × Nat)).map Prod.fst).Nodup := List.nodup_nil
    exact t.positions_eq ▸ nodup_enter t.names hnil 0
  rw [← lookup_eq_some_iff hnodup, ← position?_eq_some_iff]
  rfl

theorem position?_of_nodup {t : NameTable} (h : t.names.Nodup) {place : Nat} {name : Text}
    (hname : t.names[place]? = some name) : t.position? name = some place := by
  obtain ⟨hlt, rfl⟩ := List.getElem?_eq_some_iff.mp hname
  rw [position?_eq_idxOf?, List.idxOf?_eq_some_iff]
  refine ⟨hlt, rfl, fun j hj heq => ?_⟩
  exact absurd ((List.Nodup.getElem_inj_iff h).mp heq) (Nat.ne_of_lt hj)

end NameTable

theorem Schema.table?_byIndex_eq_some_iff {s : Schema} {i : Nat} {table : NameTable} :
    s.table? (.byIndex i) = some table ↔
      ∃ row, s.rows[i]? = some row ∧ table = NameTable.ofNames row.members := by
  show s.tables[i]? = some table ↔ _
  rw [s.tables_eq, List.getElem?_map, Option.map_eq_some_iff]
  exact exists_congr fun row => and_congr_right fun _ => eq_comm

end BorshWire
