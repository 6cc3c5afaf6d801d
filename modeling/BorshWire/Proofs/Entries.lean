import BorshWire.Encode.Walk
import Mathlib.Data.List.Nodup

/-!
# Entries of mappings

The two ways in which entries are read: a name is taken out of them, and they are sorted by their
key texts. Neither depends on the order of entries with distinct names, and neither looks at the
values.
-/

namespace BorshWire

/-- The entries of a map under text keys. -/
def Value.entriesOf (members : List (Text × Value)) : List (Key × Value) :=
  members.map fun m => (.text m.1, m.2)

/-! ## Taking a name out of a mapping -/

namespace Encode

theorem perm_of_takeEntry {name : Text} {es rest : List (Key × Value)} {v : Value}
    (h : takeEntry name es = some (v, rest)) : es.Perm ((.text name, v) :: rest) := by
  induction es generalizing rest with
  | nil => cases h
  | cons e es ih =>
    obtain ⟨key, w⟩ := e
    have hskip : (takeEntry name es).map (fun r => (r.1, (key, w) :: r.2)) = some (v, rest) →
        ((key, w) :: es).Perm ((.text name, v) :: rest) := by
      intro h
      obtain ⟨⟨v', rest'⟩, htaken, hr⟩ := Option.map_eq_some_iff.mp h
      obtain ⟨rfl, rfl⟩ := Prod.mk.inj hr
      exact ((ih htaken).cons (key, w)).trans (.swap _ _ _)
    cases key with
    | text t =>
      by_cases ht : t = name
      · rw [takeEntry, if_pos ht] at h
        obtain ⟨rfl, rfl⟩ := Prod.mk.inj (Option.some.inj h)
        rw [ht]
      · rw [takeEntry, if_neg ht] at h
        exact hskip h
    | _ => exact hskip h

theorem takeEntry_eq_none_iff {name : Text} {es : List (Key × Value)} :
    takeEntry name es = none ↔ ∀ v, ((.text name, v) : Key × Value) ∉ es := by
  induction es with
  | nil => exact ⟨fun _ _ => List.not_mem_nil, fun _ => rfl⟩
  | cons e es ih =>
    obtain ⟨key, w⟩ := e
    have hskip : key ≠ .text name →
        ((takeEntry name es).map (fun r => (r.1, (key, w) :: r.2)) = none ↔
          ∀ v, ((.text name, v) : Key × Value) ∉ (key, w) :: es) := by
      intro hkey
      rw [Option.map_eq_none_iff, ih]
      refine forall_congr' fun v => ?_
      simp only [List.mem_cons, not_or]
      exact (and_iff_right fun h => hkey (Prod.mk.inj h).1.symm).symm
    cases key with
    | text t =>
      by_cases ht : t = name
      · rw [takeEntry, if_pos ht, ht]
        exact ⟨nofun, fun h => absurd List.mem_cons_self (h w)⟩
      · rw [takeEntry, if_neg ht]
        exact hskip fun h => ht (Key.text.inj h)
    | _ => exact hskip nofun

/-- An entry whose name stands nowhere else is taken, wherever it stands. -/
theorem takeEntry_of_perm {name : Text} {es others : List (Key × Value)} {v : Value}
    (h : es.Perm ((.text name, v) :: others)) (ho : ∀ w, ((.text name, w) : Key × Value) ∉ others) :
    ∃ rest, takeEntry name es = some (v, rest) ∧ rest.Perm others := by
  cases htaken : takeEntry name es with
  | none => exact absurd (h.mem_iff.mpr List.mem_cons_self) (takeEntry_eq_none_iff.mp htaken v)
  | some r =>
    obtain ⟨w, rest⟩ := r
    have hperm := (perm_of_takeEntry htaken).symm.trans h
    have hmem := hperm.mem_iff.mp List.mem_cons_self
    rcases List.mem_cons.mp hmem with hw | hw
    · obtain ⟨_, rfl⟩ := Prod.mk.inj hw
      exact ⟨rest, rfl, hperm.cons_inv⟩
    · exact absurd hw (ho w)

/-- The members that are left when names are used up. -/
def unspent (names : List Text) (members : List (Text × Value)) : List (Text × Value) :=
  members.filter fun m => decide (m.1 ∉ names)

theorem mem_unspent_iff {names : List Text} {members : List (Text × Value)} {m : Text × Value} :
    m ∈ unspent names members ↔ m ∈ members ∧ m.1 ∉ names := by
  rw [unspent, List.mem_filter, decide_eq_true_iff]

@[simp] theorem unspent_nil (members : List (Text × Value)) : unspent [] members = members :=
  List.filter_eq_self.mpr fun _ _ => rfl

/-- Names are used up one by one. -/
theorem unspent_unspent (name : Text) (names : List Text) (members : List (Text × Value)) :
    unspent names (unspent [name] members) = unspent (name :: names) members := by
  rw [unspent, unspent, unspent, List.filter_filter]
  refine List.filter_congr fun m _ => ?_
  rw [← Bool.decide_and, decide_eq_decide, List.mem_singleton, List.mem_cons, not_or, and_comm]

theorem nodup_unspent {members : List (Text × Value)} (distinct : (members.map Prod.fst).Nodup)
    (names : List Text) : ((unspent names members).map Prod.fst).Nodup :=
  distinct.sublist (List.filter_sublist.map Prod.fst)

/-- A name that is among distinct names is taken with its value, and the others stay. -/
theorem takeEntry_of_mem {name : Text} {v : Value} {members : List (Text × Value)}
    (distinct : (members.map Prod.fst).Nodup) (h : (name, v) ∈ members) :
    takeEntry name (Value.entriesOf members) = some (v, Value.entriesOf (unspent [name] members)) := by
  induction members with
  | nil => cases h
  | cons m members ih =>
    obtain ⟨t, w⟩ := m
    obtain ⟨hfirst, hrest⟩ := List.nodup_cons.mp distinct
    show takeEntry name ((.text t, w) :: Value.entriesOf members) = _
    by_cases ht : t = name
    · subst ht
      have hv : v = w := by
        rcases List.mem_cons.mp h with heq | hmem
        · exact (Prod.mk.inj heq).2
        · exact absurd (List.mem_map_of_mem hmem) hfirst
      have hothers : unspent [t] ((t, w) :: members) = members := by
        rw [unspent, List.filter_cons_of_neg (by simp), List.filter_eq_self]
        intro m hm
        rw [decide_eq_true_iff, List.mem_singleton]
        have hname := List.mem_map_of_mem (f := Prod.fst) hm
        exact fun heq => hfirst (heq ▸ hname)
      rw [takeEntry, if_pos rfl, hothers, hv]
    · have hmem : (name, v) ∈ members := by
        rcases List.mem_cons.mp h with heq | hmem
        · exact absurd (Prod.mk.inj heq).1.symm ht
        · exact hmem
      have hothers : unspent [name] ((t, w) :: members) = (t, w) :: unspent [name] members := by
        rw [unspent, List.filter_cons_of_pos (by simpa using ht), unspent]
      rw [takeEntry, if_neg ht, ih hrest hmem, hothers]
      rfl

theorem takeEntry_of_absent {name : Text} {members : List (Text × Value)}
    (h : ∀ v, (name, v) ∉ members) : takeEntry name (Value.entriesOf members) = none := by
  rw [takeEntry_eq_none_iff]
  intro v hv
  obtain ⟨m, hm, heq⟩ := List.mem_map.mp hv
  obtain ⟨hname, rfl⟩ := Prod.mk.inj heq
  obtain rfl := Key.text.inj hname
  exact h _ hm

/-! ## Sorting entries with distinct names -/

theorem textLE_eq (s t : Text) : textLE s t = !t.lex s := by
  induction s generalizing t with
  | nil => cases t <;> rfl
  | cons a s ih =>
    cases t with
    | nil => rfl
    | cons b t =>
      rw [textLE, ih, List.cons_lex_cons]
      rcases Nat.lt_trichotomy a.val b.val with h | h | h
      · have hlt : a < b := h
        have hne : (b == a) = false := beq_eq_false_iff_ne.mpr (Fin.ne_of_gt hlt)
        simp [hlt, hne, Fin.lt_asymm hlt]
      · obtain rfl : a = b := Fin.eq_of_val_eq h
        simp
      · have hlt : b < a := h
        simp [hlt, Fin.lt_asymm hlt, Fin.ne_of_gt hlt]

theorem pairwise_sorted {β : Type} (entries : List (Text × β)) :
    (entries.mergeSort fun a b => textLE a.1 b.1).Pairwise fun a b => textLE a.1 b.1 = true := by
  apply List.pairwise_mergeSort
  · intro a b c hab hbc
    exact textLE_trans hab hbc
  · intro a b
    exact textLE_total a.1 b.1

/-- Entries with distinct texts are sorted in one way only. -/
theorem sorted_eq_of_perm {β : Type} {xs ys : List (Text × β)} (h : xs.Perm ys)
    (distinct : (xs.map Prod.fst).Nodup) :
    (xs.mergeSort fun a b => textLE a.1 b.1) = ys.mergeSort fun a b => textLE a.1 b.1 := by
  have hantisymm : ∀ a b, a ∈ xs.mergeSort (fun a b => textLE a.1 b.1) →
      b ∈ ys.mergeSort (fun a b => textLE a.1 b.1) → textLE a.1 b.1 = true →
      textLE b.1 a.1 = true → a = b := by
    intro a b ha hb hab hba
    simp only [List.mem_mergeSort] at ha hb
    exact List.inj_on_of_nodup_map distinct ha (h.mem_iff.mpr hb) (textLE_antisymm hab hba)
  exact List.Perm.eq_of_pairwise hantisymm (pairwise_sorted xs) (pairwise_sorted ys)
    (((List.mergeSort_perm _ _).trans h).trans (List.mergeSort_perm _ _).symm)

@[simp] theorem sortedEntries_singleton (k : Key) (v : Value) :
    sortedEntries [(k, v)] = [(keyText k, v)] :=
  List.mergeSort_singleton _

/-! ## Entries with other values -/

theorem takeEntry_map (name : Text) (f : Value → Value) (entries : List (Key × Value)) :
    takeEntry name (entries.map fun e => (e.1, f e.2)) =
      (takeEntry name entries).map fun r => (f r.1, r.2.map fun e => (e.1, f e.2)) := by
  induction entries with
  | nil => rfl
  | cons e rest ih =>
    obtain ⟨key, v⟩ := e
    have hskip : (takeEntry name (rest.map fun e => (e.1, f e.2))).map
          (fun r => (r.1, (key, f v) :: r.2)) =
        ((takeEntry name rest).map fun r => (r.1, (key, v) :: r.2)).map
          fun r => (f r.1, r.2.map fun e => (e.1, f e.2)) := by
      rw [ih, Option.map_map, Option.map_map]
      rfl
    cases key with
    | text t =>
      rw [List.map_cons, takeEntry, takeEntry]
      by_cases ht : t = name
      · simp only [if_pos ht, Option.map_some]
      · simp only [if_neg ht]
        exact hskip
    | _ => exact hskip

theorem sortedEntries_map (f : Value → Value) (entries : List (Key × Value)) :
    sortedEntries (entries.map fun e => (e.1, f e.2)) =
      (sortedEntries entries).map fun e => (e.1, f e.2) := by
  have hentries : (entries.map fun e => (e.1, f e.2)).map (fun e => (keyText e.1, e.2)) =
      (entries.map fun e => (keyText e.1, e.2)).map fun e => (e.1, f e.2) := by
    rw [List.map_map, List.map_map]
    rfl
  rw [sortedEntries, hentries]
  symm
  apply List.map_mergeSort
  intro a _ b _
  rfl

end Encode

end BorshWire
