import BorshWire.Encode.Walk
import BorshWire.Proofs.Schema.Names

/-!
# Variants by their names

`Encoder.visit_enumeration_eq_search`: the name table of a row has the names of the row in order and
for each of them its first place, whatever the row repeats, and no entry besides. So an enum is
written through its table as it would be by a search of the row (`Encode.searchedEnumeration`), also
where the row lists more names than there are variants, or fewer.
-/

namespace BorshWire

namespace Encode

/-- The variant at the first place where a row of names has this one, if so many are declared. -/
def searchVariant? (names : List Text) (variants : List Variant) : Key → Option Variant
  | .text t => (names.idxOf? t).bind (variants[·]?)
  | _ => none

/-- Writes an enum with a search of the row for the name of its variant. -/
def searchedEnumeration (s : Schema) (next : Visit) (container : Text) (variants : List Variant)
    (names : List Text) (v : Value) : Output EncodeError Unit := do
  let (name, inner) ← Output.ofExcept (selection container v)
  match searchVariant? names variants name with
  | none => Output.fail (.unknownVariant name container)
  | some variant => do
    written (Write.byte variant.discriminant)
    payload s next container variant inner

theorem variantOf?_eq_searchVariant? (table : NameTable) (variants : List Variant) (name : Key) :
    variantOf? table variants name = searchVariant? table.names variants name := by
  cases name with
  | text t => rw [variantOf?, searchVariant?, NameTable.position?_eq_idxOf?]
  | _ => rfl

theorem enumeration_eq_search {s : Schema} {link : Link} {table : NameTable}
    (h : s.table? link = some table) (next : Visit) (container : Text) (variants : List Variant)
    (v : Value) :
    enumeration s next container variants link v =
      searchedEnumeration s next container variants table.names v := by
  rw [enumeration, searchedEnumeration]
  refine congrArg _ (funext fun entry => ?_)
  have hvariant := variantOf?_eq_searchVariant? table variants entry.1
  cases hsearch : searchVariant? table.names variants entry.1 with
  | none => simp only [h, hvariant, hsearch]
  | some variant => simp only [h, hvariant, hsearch]

end Encode

namespace Encoder

open Encode

/-- A row of names has a table, which lists its names in order. In it a name stands at the first place
where the row has it, and at no other; a name that the row does not have is not there. Every enum
that is reached through the row is written as with a search of the row, whatever the value. -/
theorem visit_enumeration_eq_search {s : Schema} {index : Nat} {row : NameRow}
    (hrow : s.rows[index]? = some row) :
    ∃ table, s.table? (.byIndex index) = some table ∧ table.names = row.members ∧
      (∀ name place, table.position? name = some place ↔
        row.members[place]? = some name ∧ ∀ j < place, row.members[j]? ≠ some name) ∧
      (∀ name place, (name, place) ∈ table.positions ↔ table.position? name = some place) ∧
      (∀ name, table.position? name = none ↔ name ∉ row.members) ∧
      ∀ (config : Config) (levels : Nat) (container : Text) (variants : List Variant)
        (hideTag : Bool) (v : Value),
        visit ⟨s, config⟩ (levels + 1) (.enumeration container variants hideTag) (.byIndex index) v =
          searchedEnumeration s (visit ⟨s, config⟩ levels) container variants row.members v := by
  have htable : s.table? (.byIndex index) = some (.ofNames row.members) :=
    Schema.table?_byIndex_eq_some_iff.mpr ⟨row, hrow, rfl⟩
  refine ⟨.ofNames row.members, htable, rfl, ?first, ?entries, ?absent, ?visited⟩
  case first => exact fun name place => NameTable.position?_eq_some_iff _
  case entries =>
    intro name place
    rw [NameTable.mem_positions_iff, NameTable.position?_eq_some_iff]
  case absent => exact fun name => NameTable.position?_eq_none_iff _
  case visited =>
    intro config levels container variants hideTag v
    exact enumeration_eq_search htable _ container variants v

end Encoder

/-- Two signals, with a row that has the first name twice and a name too many. -/
def Schema.signals : Schema :=
  build [.enumeration "Signal" [⟨"Stop", 4, none, none⟩, ⟨"Go", 9, none, none⟩] false] [0]
    [⟨"Signal", ["stop", "go", "stop", "turn"]⟩] none [] []

theorem Encoder.visit_signals :
    Schema.signals.rows[0]? = some ⟨"Signal", ["stop", "go", "stop", "turn"]⟩ ∧
      ∃ table, Schema.signals.table? (.byIndex 0) = some table ∧ table.position? "stop" = some 0 ∧
        table.position? "turn" = some 3 ∧
        Encode.visit ⟨.signals, .default⟩ 1
          (.enumeration "Signal" [⟨"Stop", 4, none, none⟩, ⟨"Go", 9, none, none⟩] false)
          (.byIndex 0) (.text "turn") = Output.fail (.unknownVariant (.text "turn") "Signal") := by
  have hrow : Schema.signals.rows[0]? = some ⟨"Signal", ["stop", "go", "stop", "turn"]⟩ := rfl
  obtain ⟨table, htable, _, hfirst, _, _, hvisit⟩ := visit_enumeration_eq_search hrow
  refine ⟨hrow, table, htable, (hfirst _ _).mpr (by decide), (hfirst _ _).mpr (by decide), ?_⟩
  rw [hvisit]
  rfl

end BorshWire
