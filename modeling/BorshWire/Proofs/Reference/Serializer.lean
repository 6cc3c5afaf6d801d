import BorshWire.Proofs.Datum
import BorshWire.Schema.Basic

/-!
# The Borsh of the textbook

The serializer of the format itself, for the data of a schema: fixed-width integers with the lowest
byte first and in two's complement, floats by their bits, one byte for a truth value, a discriminant
or the presence of an option, and a count of four bytes before everything of variable length. It has
neither values nor names nor limits.

A tuple of one field is a list of one item here, like any other tuple.
-/

namespace BorshWire

namespace Borsh

/-- The low bytes of a number: byte `i` has the eight bits from `8 * i` on. -/
def lowBytes (width n : Nat) : List UInt8 :=
  (List.range width).map fun i => UInt8.ofNat (n / twoPow (8 * i))

/-- A count of four bytes. -/
def count (n : Nat) : List UInt8 := lowBytes 4 n

/-- An integer in two's complement. -/
def integer (kind : IntKind) (n : Int) : List UInt8 :=
  lowBytes kind.width.bytes (BitVec.ofInt kind.bits n).toNat

/-- The UTF-8 bytes of a text without halves of surrogate pairs. -/
def utf8 (t : Text) : List UInt8 := t.flatMap fun c => String.utf8EncodeChar (Char.ofNat c.val)

end Borsh

/-- The variant at a place of the enum that a link leads to. -/
def Schema.variant? (s : Schema) (link : Link) (position : Nat) : Option Variant :=
  match s.resolve link with
  | .ok (.enumeration _ variants _) => variants[position]?
  | _ => none

namespace Datum

/-- The text of a map key: a text itself, or an integer in decimal. -/
def keyText : Datum → Text
  | text t => t
  | integer n => Text.ofInt n
  | _ => []

mutual

/-- The bytes of a datum of the type that a link leads to. -/
@[simp] def borsh (s : Schema) (link : Link) : Datum → List UInt8
  | unit => []
  | bool b => [if b then 1 else 0]
  | integer n =>
    match s.resolve link with
    | .ok (.primitive (.integer kind _)) => Borsh.integer kind n
    | _ => []
  | single word => Borsh.lowBytes 4 word.toNat
  | double word => Borsh.lowBytes 8 word.toNat
  | text t => Borsh.count (Borsh.utf8 t).length ++ Borsh.utf8 t
  | bytes data =>
    match s.resolve link with
    | .ok (.primitive (.byteVec _)) => Borsh.count data.length ++ data
    | _ => data
  | struct fields =>
    match s.resolve link with
    | .ok (.struct _ types _ _) => borshEach s (types.map NamedField.type) fields
    | _ => []
  | bare position => (s.variant? link position).toList.map Variant.discriminant
  | variant position payload =>
    match s.variant? link position with
    | some ⟨_, discriminant, _, some inner⟩ => discriminant :: borsh s inner payload
    | _ => []
  | absent => [0]
  | present item =>
    match s.resolve link with
    | .ok (.option inner) => 1 :: borsh s inner item
    | _ => []
  | list items =>
    match s.resolve link with
    | .ok (.tuple types _ _) => borshEach s (types.map UnnamedField.type) items
    | .ok (.array _ inner) => borshAll s inner items
    | .ok (.vec inner) => Borsh.count items.length ++ borshAll s inner items
    | _ => []
  | map entries =>
    match s.resolve link with
    | .ok (.map key value) =>
      Borsh.count entries.length ++
        ((borshEntries s key value entries).mergeSort fun a b => !b.1.lex a.1).flatMap Prod.snd
    | _ => []

/-- Data at links of their own, one after the other. -/
@[simp] def borshEach (s : Schema) : List Link → List Datum → List UInt8
  | link :: links, d :: rest => borsh s link d ++ borshEach s links rest
  | _, _ => []

/-- Data at one link, one after the other. -/
@[simp] def borshAll (s : Schema) (link : Link) : List Datum → List UInt8
  | [] => []
  | d :: rest => borsh s link d ++ borshAll s link rest

/-- The bytes of the entries of a map, each with the text of its key. -/
@[simp] def borshEntries (s : Schema) (key value : Link) : List (Datum × Datum) → List (Text × List UInt8)
  | [] => []
  | (k, d) :: rest =>
    (k.keyText, borsh s key k ++ borsh s value d) :: borshEntries s key value rest

end

theorem borshEntries_eq_map (s : Schema) (key value : Link) (entries : List (Datum × Datum)) :
    borshEntries s key value entries = entries.map fun entry =>
      (entry.1.keyText, entry.1.borsh s key ++ entry.2.borsh s value) := by
  induction entries with
  | nil => rfl
  | cons entry rest ih => rw [borshEntries, ih, List.map_cons]

end Datum

end BorshWire
