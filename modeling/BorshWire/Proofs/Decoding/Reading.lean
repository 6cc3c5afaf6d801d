import BorshWire.Proofs.Datum
import BorshWire.Proofs.Decoding.KeyOrder

/-!
# What an encoded value means

The reading of a value at a position: the datum that is written there. It is taken from the value
alone, along the same links as the walk of the encoder and to the same depth. The readings at
primitive types and of maps are said over again here, and what the walk accepts there has them
(`readInteger_of_value`, `readBytes_of_byteString`, `readDouble_of_value`, `readBool_of_value`).
-/

namespace BorshWire

namespace Encode

/-- Reads a value at a position of a type that was reached through a link. -/
abbrev Read := Ty → Link → Value → Option Datum

/-- The reading against the type that a link leads to. -/
def readLink (s : Schema) (next : Read) (link : Link) (v : Value) : Option Datum := do
  let type ← (s.resolve link).toOption
  next type link v

/-! ## Primitive types -/

/-- The integer at an integer position: an integral number, or one that a text spells. -/
def readInteger : Value → Option Int
  | .int n => some n
  | .float x => x.toInt?
  | .text t =>
    match numberOfText? t with
    | some (.int n) => some n
    | some (.float x) => x.toInt?
    | _ => none
  | _ => none

/-- The double at a float position: the one nearest to a number or to what a text spells, if it is
finite. -/
def readDouble (v : Value) : Option Double := (nearestDouble? v).filter Double.isFinite

/-- The truth value at a boolean position: one itself, or its word. -/
def readBool : Value → Option Bool
  | .bool b => some b
  | .text t => if t = "true" then some true else if t = "false" then some false else none
  | _ => none

/-- The byte that a number of one byte is. -/
def readByte : Value → Option UInt8
  | .int n => if 0 ≤ n ∧ n ≤ 255 then some (UInt8.ofNat n.toNat) else none
  | _ => none

/-- The bytes at a byte position: those of a buffer or below a view, those that a text displays, or
the numbers of another sequence. -/
def readBytes (maxLength : Nat) (display : ByteDisplay) : Value → Option (List UInt8)
  | .buffer _ data => some data
  | .view shown => some shown.data
  | .text t => (ByteText.parse display maxLength t).toOption
  | v => v.items?.bind fun items => items.toList.mapM readByte

/-- The reading at a primitive type. -/
def readPrimitive (config : Config) (type : Primitive) (v : Value) : Option Datum :=
  match type with
  | .integer _ _ => (readInteger v).map .integer
  | .byteArray _ display => (readBytes config.maxBech32Length display v).map .bytes
  | .byteVec display => (readBytes config.maxBech32Length display v).map .bytes
  | .float32 => (readDouble v).map fun x => .single x.toSingle
  | .float64 => (readDouble v).map fun x => .double x.bits
  | .string =>
    match v with
    | .text t => some (.text t)
    | _ => none
  | .boolean => (readBool v).map .bool
  | .skip _ => some .unit

/-- The integer that is written is the one that the value reads as. -/
theorem readInteger_of_value {kind : IntKind} {v n : Value} {i : Int}
    (h : integerValue kind v = .ok n) (hn : Write.integral? n = some i) :
    readInteger v = some i := by
  cases v with
  | int m =>
    obtain rfl := Except.ok.inj h
    exact hn
  | float x =>
    obtain rfl := Except.ok.inj h
    exact hn
  | text t =>
    cases hnumber : numberOfText? t with
    | none => simp only [integerValue, hnumber, reduceCtorEq] at h
    | some m =>
      simp only [integerValue, hnumber, Except.ok.injEq] at h
      obtain rfl := h
      rw [readInteger, hnumber]
      rcases number_of_numberOfText? hnumber with ⟨m, rfl⟩ | ⟨x, rfl⟩ <;> exact hn
  | _ => cases h

theorem readDouble_of_value {name : Text} {v : Value} {x : Double} (h : floatValue name v = .ok x) :
    readDouble v = some x := by
  unfold floatValue at h
  split at h
  · rename_i hnearest
    split at h
    · rename_i hfinite
      obtain rfl := Except.ok.inj h
      rw [readDouble, hnearest]
      exact Option.filter_some_pos hfinite
    · cases h
  · cases h

theorem readBool_of_value {v : Value} {b : Bool} (h : boolValue v = .ok b) :
    readBool v = some b := by
  cases v with
  | bool own => exact congrArg some (Except.ok.inj h)
  | text t =>
    rw [boolValue] at h
    rw [readBool]
    by_cases htrue : t = "true"
    · rw [if_pos htrue] at h ⊢
      exact congrArg some (Except.ok.inj h)
    · rw [if_neg htrue] at h ⊢
      by_cases hfalse : t = "false"
      · rw [if_pos hfalse] at h ⊢
        exact congrArg some (Except.ok.inj h)
      · rw [if_neg hfalse] at h
        cases h
  | _ => cases h

theorem readByte_eq (v : Value) : readByte v = (byteValue v).toOption := by
  cases v with
  | int n =>
    rw [readByte, byteValue]
    split <;> rfl
  | _ => rfl

theorem mapM_readByte (values : List Value) :
    values.mapM readByte = (values.mapM byteValue).toOption := by
  induction values with
  | nil => rfl
  | cons v rest ih =>
    rw [List.mapM_cons, List.mapM_cons, ih, readByte_eq]
    cases byteValue v with
    | error err => rfl
    | ok b => cases rest.mapM byteValue <;> rfl

theorem readBytes_of_items {items : Items} {data : List UInt8} (h : byteItems items = .ok data) :
    items.toList.mapM readByte = some data := by
  have hlisted : byteItems (.listed items.toList) = .ok data := by
    cases items with
    | listed values => exact h
    | spaced numbers => exact (byteItems_spaced numbers).symm.trans h
    | sealed count reason => cases h
  rw [mapM_readByte]
  exact congrArg Except.toOption hlisted

theorem readBytes_of_byteString {expected : Text} {maxLength : Nat} {display : ByteDisplay}
    {v : Value} {data : List UInt8} (h : byteString expected maxLength display v = .ok data) :
    readBytes maxLength display v = some data := by
  cases v with
  | buffer kind own => exact congrArg some (Except.ok.inj h)
  | view shown => exact congrArg some (Except.ok.inj h)
  | text t =>
    rw [readBytes, Output.mapError_eq_ok_iff.mp h]
    rfl
  | list items => exact readBytes_of_items h
  | tuple items => exact readBytes_of_items h
  | range numbers => exact readBytes_of_items h
  | _ => cases h

/-! ## The other types -/

/-- The place of a variant. -/
def variantPlace? (table : NameTable) : Key → Option Nat
  | .text t => table.position? t
  | _ => none

/-- The reading at an enum: the place of the selected variant, and its payload if it has one. -/
def readEnumeration (s : Schema) (next : Read) (container : Text) (variants : List Variant)
    (link : Link) (v : Value) : Option Datum := do
  let (name, inner) ← (selection container v).toOption
  let table ← s.table? link
  let position ← variantPlace? table name
  let variant ← variants[position]?
  match variant.payload with
  | none => some (.bare position)
  | some link => Datum.variant position <$> readLink s next link inner

/-- The readings of the fields of a struct in schema order. -/
def readFields (s : Schema) (next : Read) :
    List NamedField → List Text → List (Key × Value) → Option (List Datum)
  | field :: fields, name :: names, entries => do
    let (v, rest) ← takeEntry name entries
    let d ← readLink s next field.type v
    let ds ← readFields s next fields names rest
    some (d :: ds)
  | _, _, _ => some []

/-- The reading at a struct. -/
def readStruct (s : Schema) (next : Read) (fields : List NamedField) (link : Link) (v : Value) :
    Option Datum := do
  let m ← v.mapping?
  let table ← s.table? link
  Datum.struct <$> readFields s next fields table.names m.entries

/-- The readings of items, each against the link of its own position. -/
def readPositions (s : Schema) (next : Read) : List UnnamedField → List Value →
    Option (List Datum)
  | field :: fields, v :: rest => do
    let d ← readLink s next field.type v
    let ds ← readPositions s next fields rest
    some (d :: ds)
  | _, _ => some []

/-- The reading at a tuple; that of one field is the reading of the field. -/
def readTuple (s : Schema) (next : Read) (fields : List UnnamedField) (v : Value) : Option Datum :=
  match fields with
  | [field] => readLink s next field.type v
  | fields => do
    let items ← v.items?
    let values ← items.opened.toOption
    Datum.list <$> readPositions s next fields values

/-- The reading at an option. -/
def readOption (s : Schema) (next : Read) (item : Link) (v : Value) : Option Datum :=
  if v.isNull then some .absent else Datum.present <$> readLink s next item v

/-- The reading at an array or a vector. -/
def readItems (s : Schema) (next : Read) (item : Link) (v : Value) : Option Datum := do
  let items ← v.items?
  let values ← items.opened.toOption
  Datum.list <$> values.mapM (readLink s next item)

/-- The readings of a key and of the value under it. -/
def readPair (s : Schema) (next : Read) (key value : Link) (k v : Value) :
    Option (Datum × Datum) := do
  let a ← readLink s next key k
  let b ← readLink s next value v
  some (a, b)

/-- The reading of an entry of a map, its key given as a text. -/
def readEntry (s : Schema) (next : Read) (key value : Link) (entry : Text × Value) :
    Option (Datum × Datum) := do
  let keyType ← (s.resolve key).toOption
  let k ← (keyValue keyType entry.1).toOption
  readPair s next key value k entry.2

/-- The reading at a map: its entries in the order of their key texts. -/
def readMap (s : Schema) (next : Read) (key value : Link) (v : Value) : Option Datum := do
  let m ← v.mapping?
  Datum.map <$> (byKeyText m.entries).mapM (readEntry s next key value)

/-- The reading at one level, given the reading at the next. -/
def readStep (e : Encoder) (next : Read) : Read := fun type link v =>
  match type with
  | .primitive type => readPrimitive e.config type v
  | .enumeration name variants _ => readEnumeration e.schema next name variants link v
  | .struct _ fields _ _ => readStruct e.schema next fields link v
  | .tuple fields _ _ => readTuple e.schema next fields v
  | .option item => readOption e.schema next item v
  | .array _ item => readItems e.schema next item v
  | .vec item => readItems e.schema next item v
  | .map key value => readMap e.schema next key value v

/-- The reading over at most the given number of levels. -/
def read (e : Encoder) : Nat → Read
  | 0 => fun _ _ _ => none
  | levels + 1 => readStep e (read e levels)

end Encode

/-- The reading of a value at an entry of the type table, as deep as the limits let the encoder
go. -/
def Encoder.reading (e : Encoder) (index : Nat) (v : Value) : Option Datum := do
  let type ← e.schema.types[index]?
  Encode.read e (e.config.maxDepth + 1) type (.byIndex index) v

end BorshWire
