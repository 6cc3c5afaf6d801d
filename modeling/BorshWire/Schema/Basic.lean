import BorshWire.Schema.Types
import BorshWire.Value.Basic

/-!
# Schemas

A schema is a table of types, a row of names for every type, and the entries of the table that
play a known role. The name row of a struct lists its fields in wire order, that of an enum its
variants in the order of declaration; a name that is listed twice means its first place.
-/

namespace BorshWire

namespace NameTable

/-- The position of a name. -/
def lookup (name : Text) : List (Text × Nat) → Option Nat
  | [] => none
  | (n, position) :: rest => if n = name then some position else lookup name rest

/-- Enters names from a position on; a name that is there already stays where it is. -/
def enter (positions : List (Text × Nat)) (position : Nat) : List Text → List (Text × Nat)
  | [] => positions
  | name :: rest =>
    let next := match lookup name positions with
      | some _ => positions
      | none => positions ++ [(name, position)]
    enter next (position + 1) rest

end NameTable

/-- The names of the components of a container, and where each name stands first. -/
structure NameTable where
  names : List Text
  positions : List (Text × Nat)
  positions_eq : positions = NameTable.enter [] 0 names

namespace NameTable

/-- The table of a row of names. -/
def ofNames (names : List Text) : NameTable := ⟨names, enter [] 0 names, rfl⟩

/-- Where a name stands first. -/
def position? (t : NameTable) (name : Text) : Option Nat := lookup name t.positions

theorem eq_of_names {t u : NameTable} (h : t.names = u.names) : t = u := by
  obtain ⟨names, positions, ht⟩ := t
  obtain ⟨names', positions', hu⟩ := u
  obtain rfl : names = names' := h
  subst ht hu
  rfl

end NameTable

/-- A row of the external names of one container. -/
structure NameRow where
  name : Text
  members : List Text

/-- The chain that a schema describes. -/
structure ChainData where
  id : Int
  name : Text

/-- The roles that a root type can play, by their position among the roots. -/
inductive Role where
  | transaction
  | unsignedTransaction
  | runtimeCall
  deriving DecidableEq

namespace Role

/-- The roles in order. -/
def all : List Role := [transaction, unsignedTransaction, runtimeCall]

/-- The position of a role among the root types. -/
def position : Role → Nat
  | transaction => 0
  | unsignedTransaction => 1
  | runtimeCall => 2

/-- The name of a role in messages. -/
def name : Role → Text
  | transaction => "TRANSACTION"
  | unsignedTransaction => "UNSIGNED_TRANSACTION"
  | runtimeCall => "RUNTIME_CALL"

/-- The name of a role on the command line. -/
def option : Role → Text
  | transaction => "transaction"
  | unsignedTransaction => "unsigned-transaction"
  | runtimeCall => "runtime-call"

end Role

/-- A schema as loaded from a descriptor, of which it keeps a copy. -/
structure Schema where
  types : List Ty
  roots : List Int
  rows : List NameRow
  chain : Option ChainData
  templates : List (List (Text × Value))
  tables : List NameTable
  source : List (Key × Value)
  tables_eq : tables = rows.map fun row => NameTable.ofNames row.members

namespace Schema

/-- The schema of these parts, with the tables of its name rows. -/
def build (types : List Ty) (roots : List Int) (rows : List NameRow) (chain : Option ChainData)
    (templates : List (List (Text × Value))) (source : List (Key × Value)) : Schema where
  types := types
  roots := roots
  rows := rows
  chain := chain
  templates := templates
  tables := rows.map fun row => NameTable.ofNames row.members
  source := source
  tables_eq := rfl

/-- Why a link leads to no type. -/
inductive Unresolved where
  | dangling (index : Nat)
  | placeholder
  | indexedPlaceholder (index : Int)
  deriving DecidableEq

/-- The type that a link leads to. -/
def resolve (s : Schema) : Link → Except Unresolved Ty
  | .byIndex index =>
    match s.types[index]? with
    | some type => .ok type
    | none => .error (.dangling index)
  | .immediate type => .ok (.primitive type)
  | .placeholder => .error .placeholder
  | .indexedPlaceholder index => .error (.indexedPlaceholder index)

theorem resolve_byIndex (s : Schema) (index : Nat) :
    s.resolve (.byIndex index) = match s.types[index]? with
      | some type => .ok type
      | none => .error (.dangling index) := rfl

theorem resolve_byIndex_iff {s : Schema} {index : Nat} {type : Ty} :
    s.resolve (.byIndex index) = .ok type ↔ s.types[index]? = some type := by
  rw [resolve_byIndex]
  cases s.types[index]? <;> simp

theorem eq_of_resolve {s : Schema} {link : Link} {type type' : Ty} (h : s.resolve link = .ok type)
    (h' : s.resolve link = .ok type') : type = type' :=
  Except.ok.inj (h.symm.trans h')

/-- The name table of the container that a link leads to; only the type table has names. -/
def table? (s : Schema) : Link → Option NameTable
  | .byIndex index => s.tables[index]?
  | _ => none

/-- The position of a root type, given as any value: an integer within the table. -/
def rootPosition? (s : Schema) : Value → Option Nat
  | .int (.ofNat n) => if n < s.types.length then some n else none
  | _ => none

theorem rootPosition?_int (s : Schema) (position : Nat) :
    s.rootPosition? (.int position) = if position < s.types.length then some position else none :=
  rfl

theorem eq_int_of_rootPosition? {s : Schema} {index : Value} {position : Nat}
    (h : s.rootPosition? index = some position) : index = .int position := by
  unfold rootPosition? at h
  split at h
  · split at h
    · obtain rfl := Option.some.inj h
      rfl
    · nomatch h
  · nomatch h

/-- The root type of a role. -/
def root? (s : Schema) (role : Role) : Option Int := s.roots[role.position]?

end Schema

end BorshWire
