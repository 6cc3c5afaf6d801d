import BorshWire.Proofs.Entries
import Mathlib.Data.List.Sort

/-!
# The order of map entries

`InKeyOrder` says how the entries of a map stand in a row, whatever puts them there: all of them,
smaller key texts first, entries of one key text in the order of the map. There is one such row only
(`InKeyOrder.unique`): `byKeyText` inserts the entries into it one by one, and the walk sorts them
into the same (`sortedEntries_eq_byKeyText`).
-/

namespace BorshWire

namespace Encode

/-- An entry may stand in front of another one: its key text is not the greater. -/
def MayPrecede (a b : Text × Value) : Prop := b.1.lex a.1 = false

instance decidableMayPrecede : DecidableRel MayPrecede := fun a b =>
  inferInstanceAs (Decidable (b.1.lex a.1 = false))

/-- The entries of a map with the texts of their keys. -/
def withTexts (entries : List (Key × Value)) : List (Text × Value) :=
  entries.map fun e => (keyText e.1, e.2)

/-- A row holds the entries of a map by ascending key text, and those of one key text as they stand
in the map. -/
structure InKeyOrder (entries : List (Key × Value)) (row : List (Text × Value)) : Prop where
  perm : row.Perm (withTexts entries)
  ascending : row.Pairwise MayPrecede
  stable : ∀ t, row.filter (fun e => e.1 = t) = (withTexts entries).filter fun e => e.1 = t

/-- The entries of a map, each inserted in front of the first one with a key text that is not
smaller. -/
def byKeyText (entries : List (Key × Value)) : List (Text × Value) :=
  (withTexts entries).insertionSort MayPrecede

theorem mayPrecede_iff {a b : Text × Value} : MayPrecede a b ↔ textLE a.1 b.1 = true := by
  rw [MayPrecede, textLE_eq, Bool.not_eq_true']

theorem MayPrecede.of_eq {a b : Text × Value} (h : a.1 = b.1) : MayPrecede a b := by
  rw [mayPrecede_iff, h]
  exact (Bool.or_self _).symm.trans (textLE_total b.1 b.1)

/-- A sort that keeps what is in order already is stable. -/
theorem InKeyOrder.of_sublists {entries : List (Key × Value)} {row : List (Text × Value)}
    (perm : row.Perm (withTexts entries)) (ascending : row.Pairwise MayPrecede)
    (keeps : ∀ part : List (Text × Value), part.Pairwise MayPrecede →
      part.Sublist (withTexts entries) → part.Sublist row) : InKeyOrder entries row := by
  refine ⟨perm, ascending, fun t => ?_⟩
  let part := (withTexts entries).filter fun e => e.1 = t
  have htext : ∀ e ∈ part, e.1 = t := fun e he => of_decide_eq_true (List.mem_filter.mp he).2
  have hpart : part.Pairwise MayPrecede :=
    List.pairwise_of_forall_mem_list fun a ha b hb => .of_eq ((htext a ha).trans (htext b hb).symm)
  have hsub : part.Sublist (row.filter fun e => e.1 = t) := by
    have hkept := (keeps part hpart List.filter_sublist).filter fun e => e.1 = t
    rwa [List.filter_eq_self.mpr fun e he => decide_eq_true (htext e he)] at hkept
  exact (hsub.eq_of_length (perm.symm.filter _).length_eq).symm

theorem byKeyText_inKeyOrder (entries : List (Key × Value)) :
    InKeyOrder entries (byKeyText entries) := by
  have htotal : Std.Total MayPrecede := ⟨fun a b => by
    rw [mayPrecede_iff, mayPrecede_iff, ← Bool.or_eq_true]
    exact textLE_total a.1 b.1⟩
  have htrans : IsTrans (Text × Value) MayPrecede := ⟨fun a b c hab hbc =>
    mayPrecede_iff.mpr (textLE_trans (mayPrecede_iff.mp hab) (mayPrecede_iff.mp hbc))⟩
  exact .of_sublists (List.perm_insertionSort MayPrecede _)
    (List.pairwise_insertionSort MayPrecede _) fun _ => List.sublist_insertionSort

theorem sortedEntries_inKeyOrder (entries : List (Key × Value)) :
    InKeyOrder entries (sortedEntries entries) := by
  refine .of_sublists (List.mergeSort_perm _ _) ?_ fun part hpart hsub => ?_
  · exact (pairwise_sorted _).imp mayPrecede_iff.mpr
  · have hpart : part.Pairwise fun a b => textLE a.1 b.1 = true := hpart.imp mayPrecede_iff.mp
    have htrans : ∀ a b c : Text × Value, textLE a.1 b.1 = true → textLE b.1 c.1 = true →
        textLE a.1 c.1 = true := fun _ _ _ => textLE_trans
    exact List.sublist_mergeSort htrans (fun a b => textLE_total a.1 b.1) hpart hsub

/-- The first entry of a row in order has the least key text. -/
theorem textLE_of_mem {a b : Text × Value} {row : List (Text × Value)}
    (h : (a :: row).Pairwise MayPrecede) (hb : b ∈ a :: row) : textLE a.1 b.1 = true := by
  rcases List.mem_cons.mp hb with rfl | hb
  · exact mayPrecede_iff.mp (.of_eq rfl)
  · exact mayPrecede_iff.mp (List.rel_of_pairwise_cons h hb)

theorem mem_iff_of_filters {row row' : List (Text × Value)}
    (hsame : ∀ t, row.filter (fun e => e.1 = t) = row'.filter fun e => e.1 = t) (e : Text × Value) :
    e ∈ row ↔ e ∈ row' := by
  have hfound := congrArg (e ∈ ·) (hsame e.1)
  simpa using hfound

/-- Rows in order are the same if they agree on the entries of each key text. -/
theorem eq_of_filters {row row' : List (Text × Value)} (h : row.Pairwise MayPrecede)
    (h' : row'.Pairwise MayPrecede)
    (hsame : ∀ t, row.filter (fun e => e.1 = t) = row'.filter fun e => e.1 = t) : row = row' := by
  induction row generalizing row' with
  | nil =>
    refine (List.eq_nil_iff_forall_not_mem.mpr fun e he => ?_).symm
    cases (mem_iff_of_filters hsame e).mpr he
  | cons a row ih =>
    have hmem := mem_iff_of_filters hsame
    cases row' with
    | nil => exact nomatch (hmem a).mp List.mem_cons_self
    | cons b row' =>
      have htext : a.1 = b.1 :=
        textLE_antisymm (textLE_of_mem h ((hmem b).mpr List.mem_cons_self))
          (textLE_of_mem h' ((hmem a).mp List.mem_cons_self))
      -- of the entries with the least text, both rows have the same one in front
      have hfront := hsame a.1
      rw [List.filter_cons_of_pos (by simp), List.filter_cons_of_pos (by simp [htext])] at hfront
      obtain ⟨rfl, _⟩ := List.cons.inj hfront
      have hrest : ∀ t, row.filter (fun e => e.1 = t) = row'.filter fun e => e.1 = t := by
        intro t
        have ht := hsame t
        rw [List.filter_cons, List.filter_cons] at ht
        split at ht
        · exact (List.cons.inj ht).2
        · exact ht
      rw [ih h.of_cons h'.of_cons hrest]

theorem InKeyOrder.unique {entries : List (Key × Value)} {row row' : List (Text × Value)}
    (h : InKeyOrder entries row) (h' : InKeyOrder entries row') : row = row' :=
  eq_of_filters h.ascending h'.ascending fun t => (h.stable t).trans (h'.stable t).symm

/-- The walk puts the entries of a map into the order of their key texts. -/
theorem sortedEntries_eq_byKeyText (entries : List (Key × Value)) :
    sortedEntries entries = byKeyText entries :=
  (sortedEntries_inKeyOrder entries).unique (byKeyText_inKeyOrder entries)

end Encode

end BorshWire
