import BorshWire.Proofs.Schema.Complete

/-!
# Well-formed schemas

A schema is well-formed as seen from a link if every link that is reachable leads to a type, every
enum has a row of names, and every struct has a row of at least as many names as fields. `Chain` counts
the links on a way through the schema.
-/

namespace BorshWire

/-- The number of names that the row of a type has to have, if the type needs a row. -/
def Ty.leastNames? : Ty → Option Nat
  | .enumeration _ _ _ => some 0
  | .struct _ fields _ _ => some fields.length
  | _ => none

namespace Schema

/-- A link leads to a type, and the row that the type needs is there and long enough. -/
structure Furnished (s : Schema) (link : Link) : Prop where
  resolves : ∃ type, s.resolve link = .ok type
  named : ∀ {type : Ty} {least : Nat}, s.resolve link = .ok type →
    type.leastNames? = some least → ∃ table, s.table? link = some table ∧ least ≤ table.names.length

/-- Whatever is reachable from the link is furnished. -/
def WellFormed (s : Schema) (root : Link) : Prop := ∀ link, s.Reaches root link → s.Furnished link

/-- A link is met this many links further down from another one. -/
inductive Chain (s : Schema) : Link → Nat → Link → Prop where
  | here (link : Link) : Chain s link 0 link
  | down {link child last : Link} {type : Ty} {length : Nat} (hr : s.resolve link = .ok type)
    (hc : child ∈ type.links) (h : Chain s child length last) : Chain s link (length + 1) last

/-- No way down from the link has more than so many links; in particular none comes back to where it
was. -/
def ChainsWithin (s : Schema) (root : Link) (bound : Nat) : Prop :=
  ∀ length last, s.Chain root length last → length ≤ bound

namespace WellFormed

theorem furnished {s : Schema} {link : Link} (h : s.WellFormed link) : s.Furnished link :=
  h link .root

theorem child {s : Schema} {link child : Link} {type : Ty} (h : s.WellFormed link)
    (hr : s.resolve link = .ok type) (hc : child ∈ type.links) : s.WellFormed child := by
  intro other hother
  exact h other (.trans (.step .root hr hc) hother)

theorem of_closed {s : Schema} (links : List Link) (hfurnished : ∀ link ∈ links, s.Furnished link)
    (hclosed : ∀ link ∈ links, ∀ type, s.resolve link = .ok type → ∀ child ∈ type.links,
      child ∈ links) {root : Link} (hroot : root ∈ links) : s.WellFormed root :=
  fun link h => hfurnished link (h.mem_of_closed hclosed hroot)

end WellFormed

/-- A rank that falls along every link, among links that lead only to others of them, bounds the
chains. -/
theorem ChainsWithin.of_rank {s : Schema} (links : List Link) (rank : Link → Nat)
    (h : ∀ link ∈ links, ∀ type, s.resolve link = .ok type → ∀ child ∈ type.links,
      child ∈ links ∧ rank child < rank link)
    {root : Link} (hroot : root ∈ links) : s.ChainsWithin root (rank root) := by
  intro length last hchain
  induction hchain with
  | here link => exact Nat.zero_le _
  | down hr hc _ ih =>
    obtain ⟨hmem, hlt⟩ := h _ hroot _ hr _ hc
    exact Nat.lt_of_le_of_lt (ih hmem) hlt

end Schema

end BorshWire
