import BorshWire.Schema.Basic

/-!
# Complete schemas

What is reachable from a link, and when a schema is complete as seen from there: every link leads to
a type, and every struct or enum has a row of distinct names, one for each field or variant.
-/

namespace BorshWire

/-- The links of a type to its components. -/
def Ty.links : Ty → List Link
  | .primitive _ => []
  | .enumeration _ variants _ => variants.filterMap Variant.payload
  | .struct _ fields _ _ => fields.map NamedField.type
  | .tuple fields _ _ => fields.map UnnamedField.type
  | .option item => [item]
  | .array _ item => [item]
  | .vec item => [item]
  | .map key value => [key, value]

/-- The number of names that a type needs, if it needs any. -/
def Ty.nameCount? : Ty → Option Nat
  | .enumeration _ variants _ => some variants.length
  | .struct _ fields _ _ => some fields.length
  | _ => none

namespace Schema

/-- A link is met on the way down from another one. -/
inductive Reaches (s : Schema) (root : Link) : Link → Prop where
  | root : Reaches s root root
  | step {link child : Link} {type : Ty} (h : Reaches s root link)
    (hr : s.resolve link = .ok type) (hc : child ∈ type.links) : Reaches s root child

/-- A link leads to a type, and the names that the type needs are there, each once. -/
structure Described (s : Schema) (link : Link) : Prop where
  resolves : ∃ type, s.resolve link = .ok type
  named : ∀ {type : Ty} {count : Nat}, s.resolve link = .ok type →
    type.nameCount? = some count →
    ∃ table, s.table? link = some table ∧ table.names.Nodup ∧ table.names.length = count

/-- Whatever is reachable from the link is described. -/
def Complete (s : Schema) (root : Link) : Prop := ∀ link, s.Reaches root link → s.Described link

theorem Reaches.trans {s : Schema} {a b c : Link} (hab : s.Reaches a b) (hbc : s.Reaches b c) :
    s.Reaches a c := by
  induction hbc with
  | root => exact hab
  | step _ hr hc ih => exact ih.step hr hc

/-- Links of which each leads only to others of them are all that is reachable from one of them. -/
theorem Reaches.mem_of_closed {s : Schema} {links : List Link} {root link : Link}
    (hclosed : ∀ link ∈ links, ∀ type, s.resolve link = .ok type → ∀ child ∈ type.links,
      child ∈ links) (hroot : root ∈ links) (h : s.Reaches root link) : link ∈ links := by
  induction h with
  | root => exact hroot
  | step _ hr hc ih => exact hclosed _ ih _ hr _ hc

namespace Complete

theorem described {s : Schema} {link : Link} (h : s.Complete link) : s.Described link :=
  h link .root

theorem child {s : Schema} {link child : Link} {type : Ty} (h : s.Complete link)
    (hr : s.resolve link = .ok type) (hc : child ∈ type.links) : s.Complete child := by
  intro other hother
  exact h other (.trans (.step .root hr hc) hother)

theorem of_closed {s : Schema} (links : List Link) (hdescribed : ∀ link ∈ links, s.Described link)
    (hclosed : ∀ link ∈ links, ∀ type, s.resolve link = .ok type → ∀ child ∈ type.links,
      child ∈ links) {root : Link} (hroot : root ∈ links) : s.Complete root :=
  fun link h => hdescribed link (h.mem_of_closed hclosed hroot)

end Complete

end Schema

end BorshWire
