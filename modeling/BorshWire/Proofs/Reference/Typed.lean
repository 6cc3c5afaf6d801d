import BorshWire.Proofs.Number.Widening
import BorshWire.Proofs.Reference.Serializer
import BorshWire.Value.Basic
import Mathlib.Data.List.Forall2

/-!
# Typed values and their plain documents

`Datum.Fits` says which data are of the type of a link, and `Datum.json` is their plain form as a
document: mappings by the names of fields and variants, a tuple of one field as the field itself, a
variant without a payload as its bare name, numbers as numbers and bytes as lists of them. The
document of nothing stands for a missing payload and for a missing option, so that neither a payload
nor what is present may be written that way.
-/

namespace BorshWire

/-- The external names of the container that a link leads to. -/
def Schema.names (s : Schema) (link : Link) : List Text :=
  ((s.table? link).map NameTable.names).getD []

theorem Schema.names_of_table? {s : Schema} {link : Link} {table : NameTable}
    (h : s.table? link = some table) : s.names link = table.names := by
  simp [names, h]

namespace Datum

/-! ## Documents -/

mutual

/-- The plain document of a datum of the type that a link leads to. -/
@[simp] def json (s : Schema) (link : Link) : Datum → Value
  | unit => .null
  | bool b => .bool b
  | integer n => .int n
  | single word => .float (.ofSingle word)
  | double word => .float ⟨word⟩
  | text t => .text t
  | bytes data => .list (data.map fun b => .int b.toNat)
  | struct fields =>
    match s.resolve link with
    | .ok (.struct _ types _ _) =>
      .map (((s.names link).map Key.text).zip (jsonEach s (types.map NamedField.type) fields))
    | _ => .null
  | bare position => .text ((s.names link)[position]?.getD [])
  | variant position payload =>
    match s.variant? link position with
    | some ⟨_, _, _, some inner⟩ =>
      .map [(.text ((s.names link)[position]?.getD []), json s inner payload)]
    | _ => .null
  | absent => .null
  | present item =>
    match s.resolve link with
    | .ok (.option inner) => json s inner item
    | _ => .null
  | list items =>
    match s.resolve link with
    | .ok (.tuple types _ _) =>
      match jsonEach s (types.map UnnamedField.type) items with
      | [v] => v
      | vs => .list vs
    | .ok (.array _ inner) => .list (jsonAll s inner items)
    | .ok (.vec inner) => .list (jsonAll s inner items)
    | _ => .null
  | map entries =>
    match s.resolve link with
    | .ok (.map _ value) => .map (jsonEntries s value entries)
    | _ => .null

/-- The documents of data at links of their own. -/
@[simp] def jsonEach (s : Schema) : List Link → List Datum → List Value
  | link :: links, d :: rest => json s link d :: jsonEach s links rest
  | _, _ => []

/-- The documents of data at one link. -/
@[simp] def jsonAll (s : Schema) (link : Link) : List Datum → List Value
  | [] => []
  | d :: rest => json s link d :: jsonAll s link rest

/-- The members of the document of a map, by the texts of its keys. -/
@[simp] def jsonEntries (s : Schema) (value : Link) : List (Datum × Datum) → List (Key × Value)
  | [] => []
  | (k, d) :: rest => (.text k.keyText, json s value d) :: jsonEntries s value rest

end

theorem jsonAll_eq_map (s : Schema) (link : Link) (items : List Datum) :
    jsonAll s link items = items.map (json s link) := by
  induction items with
  | nil => rfl
  | cons d rest ih => rw [jsonAll, ih, List.map_cons]

@[simp] theorem length_jsonAll (s : Schema) (link : Link) (items : List Datum) :
    (jsonAll s link items).length = items.length := by
  rw [jsonAll_eq_map, List.length_map]

theorem length_jsonEach {s : Schema} {links : List Link} {ds : List Datum}
    (h : links.length = ds.length) :
    (jsonEach s links ds).length = links.length := by
  induction links generalizing ds with
  | nil => cases ds <;> rfl
  | cons link links ih =>
    cases ds with
    | nil => cases h
    | cons d ds => rw [jsonEach, List.length_cons, ih (Nat.succ.inj h), List.length_cons]

theorem jsonEntries_eq_map (s : Schema) (value : Link) (entries : List (Datum × Datum)) :
    jsonEntries s value entries =
      entries.map fun entry => (Key.text entry.1.keyText, entry.2.json s value) := by
  induction entries with
  | nil => rfl
  | cons entry rest ih => rw [jsonEntries, ih, List.map_cons]

/-! ## The depth of a datum -/

mutual

/-- The number of links that are followed on the way to the deepest component. -/
@[simp] def nesting : Datum → Nat
  | struct fields => nestingAll fields
  | variant _ payload => nesting payload + 1
  | present item => nesting item + 1
  | list items => nestingAll items
  | map entries => nestingEntries entries
  | _ => 0

/-- The greatest number of links to one of the components. -/
@[simp] def nestingAll : List Datum → Nat
  | [] => 0
  | d :: rest => max (nesting d + 1) (nestingAll rest)

/-- The greatest number of links to a key or a value. -/
@[simp] def nestingEntries : List (Datum × Datum) → Nat
  | [] => 0
  | (k, d) :: rest => max (max (nesting k + 1) (nesting d + 1)) (nestingEntries rest)

end

theorem nesting_lt_of_mem {d : Datum} {items : List Datum} (h : d ∈ items) :
    d.nesting < nestingAll items := by
  induction items with
  | nil => cases h
  | cons first rest ih =>
    rw [nestingAll]
    rcases List.mem_cons.mp h with rfl | h
    · omega
    · have := ih h
      omega

theorem nesting_lt_of_mem_entries {entry : Datum × Datum} {entries : List (Datum × Datum)}
    (h : entry ∈ entries) :
    entry.1.nesting < nestingEntries entries ∧
      entry.2.nesting < nestingEntries entries := by
  induction entries with
  | nil => cases h
  | cons first rest ih =>
    rw [nestingEntries]
    rcases List.mem_cons.mp h with rfl | h
    · omega
    · have := ih h
      omega

end Datum

/-! ## Typed values -/

/-- The integers of a type. -/
def IntKind.Holds (kind : IntKind) (n : Int) : Prop :=
  if kind.signed then -(twoPow (kind.bits - 1) : Int) ≤ n ∧ n < twoPow (kind.bits - 1)
  else 0 ≤ n ∧ n < twoPow kind.bits

/-- The types whose data are map keys: texts and integers. -/
def Ty.IsKey (type : Ty) : Prop :=
  type = .primitive .string ∨ ∃ kind display, type = .primitive (.integer kind display)

/-- The datum is of the type that the link leads to: integers within the range, finite floats, texts
without halves of surrogate pairs, byte strings and arrays of the length declared, as many items as
four bytes count, maps by texts or integers with distinct texts, and no payload and nothing present
that is written as nothing. -/
inductive Datum.Fits (s : Schema) : Link → Datum → Prop where
  | integer {link : Link} {kind : IntKind} {display : IntegerDisplay} {n : Int}
    (h : s.resolve link = .ok (.primitive (.integer kind display))) (range : kind.Holds n) :
    Fits s link (.integer n)
  | byteArray {link : Link} {length : Nat} {display : ByteDisplay} {data : List UInt8}
    (h : s.resolve link = .ok (.primitive (.byteArray length display)))
    (size : data.length = length) : Fits s link (.bytes data)
  | byteVec {link : Link} {display : ByteDisplay} {data : List UInt8}
    (h : s.resolve link = .ok (.primitive (.byteVec display))) (size : data.length < twoPow 32) :
    Fits s link (.bytes data)
  | single {link : Link} {word : BitVec 32} (h : s.resolve link = .ok (.primitive .float32))
    (finite : isFiniteSingle word = true) : Fits s link (.single word)
  | double {link : Link} {word : BitVec 64} (h : s.resolve link = .ok (.primitive .float64))
    (finite : (Double.mk word).isFinite = true) : Fits s link (.double word)
  | text {link : Link} {t : Text} (h : s.resolve link = .ok (.primitive .string))
    (valid : ∀ c ∈ t, c.isSurrogate = false) (size : (Borsh.utf8 t).length < twoPow 32) :
    Fits s link (.text t)
  | bool {link : Link} {b : Bool} (h : s.resolve link = .ok (.primitive .boolean)) :
    Fits s link (.bool b)
  | unit {link : Link} {length : Nat} (h : s.resolve link = .ok (.primitive (.skip length))) :
    Fits s link .unit
  | struct {link : Link} {name : Text} {types : List NamedField} {template : Option Text}
    {peekable : Bool} {fields : List Datum}
    (h : s.resolve link = .ok (.struct name types template peekable))
    (each : List.Forall₂ (Fits s) (types.map NamedField.type) fields) : Fits s link (.struct fields)
  | bare {link : Link} {position : Nat} {variant : Variant}
    (h : s.variant? link position = some variant) (lacks : variant.payload = none) :
    Fits s link (.bare position)
  | variant {link inner : Link} {position : Nat} {variant : Variant} {payload : Datum}
    (h : s.variant? link position = some variant) (declares : variant.payload = some inner)
    (fits : Fits s inner payload) (written : payload.json s inner ≠ .null) :
    Fits s link (.variant position payload)
  | absent {link inner : Link} (h : s.resolve link = .ok (.option inner)) : Fits s link .absent
  | present {link inner : Link} {item : Datum} (h : s.resolve link = .ok (.option inner))
    (fits : Fits s inner item) (written : item.json s inner ≠ .null) : Fits s link (.present item)
  | tuple {link : Link} {types : List UnnamedField} {template : Option Text} {peekable : Bool}
    {items : List Datum} (h : s.resolve link = .ok (.tuple types template peekable))
    (each : List.Forall₂ (Fits s) (types.map UnnamedField.type) items) : Fits s link (.list items)
  | array {link inner : Link} {length : Nat} {items : List Datum}
    (h : s.resolve link = .ok (.array length inner)) (size : items.length = length)
    (all : ∀ d ∈ items, Fits s inner d) : Fits s link (.list items)
  | vec {link inner : Link} {items : List Datum} (h : s.resolve link = .ok (.vec inner))
    (size : items.length < twoPow 32) (all : ∀ d ∈ items, Fits s inner d) :
    Fits s link (.list items)
  | map {link key value : Link} {keyType : Ty} {entries : List (Datum × Datum)}
    (h : s.resolve link = .ok (.map key value)) (hkey : s.resolve key = .ok keyType)
    (isKey : keyType.IsKey) (size : entries.length < twoPow 32)
    (distinct : (entries.map fun entry => entry.1.keyText).Nodup)
    (keys : ∀ entry ∈ entries, Fits s key entry.1)
    (values : ∀ entry ∈ entries, Fits s value entry.2) : Fits s link (.map entries)

namespace Datum.Fits

variable {s : Schema} {link : Link} {d : Datum}

theorem of_string (h : d.Fits s link) (hr : s.resolve link = .ok (.primitive .string)) :
    ∃ t, d = .text t := by
  cases h with
  | text => exact ⟨_, rfl⟩
  | _ => simp_all [Schema.variant?]

theorem of_integer {kind : IntKind} {display : IntegerDisplay} (h : d.Fits s link)
    (hr : s.resolve link = .ok (.primitive (.integer kind display))) :
    ∃ n, d = .integer n ∧ kind.Holds n := by
  cases h with
  | integer h' range =>
    obtain ⟨rfl, _⟩ := Primitive.integer.inj (Ty.primitive.inj (s.eq_of_resolve hr h'))
    exact ⟨_, rfl, range⟩
  | _ => simp_all [Schema.variant?]

end Datum.Fits

end BorshWire
