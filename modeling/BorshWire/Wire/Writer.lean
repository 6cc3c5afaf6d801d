import BorshWire.Wire.Width

/-!
# Writers

A writer is a growing buffer under a sequence of write operations. Every operation appends what
it puts out, also when it fails on the way. Only setting the writer up once more empties it.
-/

namespace BorshWire

/-- The write operations that take one argument. -/
inductive WriteMethod where
  | integer (kind : IntKind)
  | single
  | double
  | boolean
  | string
  | bytes
  /-- An operation that takes another number of arguments; it is refused. -/
  | misfit (reason : Text)

/-- One use of a writer. -/
inductive WriteOp where
  | one (method : WriteMethod) (argument : Value)
  /-- An integer with the number of its bits. -/
  | sized (signed : Bool) (argument width : Value)
  | vec (items : Value) (method : WriteMethod)

/-- Anything but zero, nothing and the empty counts as true. -/
def Value.isTruthy : Value → Bool
  | .null => false
  | .bool b => b
  | .int n => n != 0
  | .float x => x.magnitude != 0
  | .text t => !t.isEmpty
  | .list items => !items.isEmpty
  | .tuple items => !items.isEmpty
  | .buffer _ data => !data.isEmpty
  | .view shown => shown.length != 0
  | .range numbers => numbers.length != 0
  | .map entries => !entries.isEmpty
  | .vastMap count => count != 0

/-- The parts of a collection: how many it claims, if they can be counted, and those that it
yields. -/
structure Parts where
  count : Except Uncountable Nat
  items : Items

/-- The parts of a collection. A text is taken apart into its characters, a mapping into its
keys. -/
def Value.parts? : Value → Option Parts
  | .text t => some ⟨.ok t.length, .listed (t.map fun c => .text [c])⟩
  | v =>
    match v.items?, v.mapping? with
    | some items, _ => some ⟨items.count, items⟩
    | none, some m => some ⟨m.count, .listed (m.entries.map fun e => e.1.toValue)⟩
    | none, none => none

namespace WriteMethod

/-- Writes as many zeros as a number says. -/
def zeros (n : Int) : Write.Step :=
  if n < 0 then Output.fail .negativeCount
  else if twoPow 63 ≤ n then Output.fail (.uncountable .claim)
  else do
    let _ ← Output.ofExcept (Write.room n.toNat)
    Output.emit (List.replicate n.toNat 0)

/-- Writes what stands for bytes: a buffer, a collection of bytes, or a number of zeros. -/
def rawBytes (v : Value) : Write.Step :=
  match v with
  | .buffer _ data => Write.bytes data
  | .view shown => Write.bytes shown.data
  | .text _ => Output.fail .unencodedText
  | .int n => zeros n
  | .bool b => zeros b.toNat
  | v =>
    match v.parts? with
    | some parts => do
      let count ← Output.ofExcept (parts.count.mapError .uncountable)
      let _ ← Output.ofExcept (Write.room count)
      Write.byteItems parts.items
    | none => Output.fail (.notBytes v)

/-- What an operation puts out for an argument. -/
def step (m : WriteMethod) (v : Value) : Write.Step :=
  match m with
  | integer kind => Write.integer kind v
  | single => Write.single v
  | double => Write.double v
  | boolean => Write.boolean v.isTruthy
  | string =>
    match v with
    | .text t => Write.string t
    | v => Output.fail (.notText v)
  | bytes => rawBytes v
  | misfit reason => Output.fail (.misfit reason)

/-- Operations of another number of arguments, and why they are refused for an item. -/
def misfits : List (Text × WriteMethod) :=
  let lacking (argument : Text) (name : Text) : Text × WriteMethod :=
    (name, .misfit (Text.concat ["BorshWriter.", name,
      "() missing 1 required positional argument: '", argument, "'"]))
  let full (name : Text) : Text × WriteMethod :=
    (name, .misfit (Text.concat ["BorshWriter.", name,
      "() takes 1 positional argument but 2 were given"]))
  [lacking "num_bits" "write_uint", lacking "num_bits" "write_int",
    lacking "write_item" "write_vec", full "to_hex", full "to_bytes"]

/-- The operation with one argument of a name. -/
def ofName? (name : Text) : Option WriteMethod :=
  match IntKind.all.find? fun k => name = Text.concat ["write_", k.name] with
  | some kind => some (.integer kind)
  | none =>
    let named : List (Text × WriteMethod) := [("write_f32", .single), ("write_f64", .double),
      ("write_bool", .boolean), ("write_string", .string), ("write_bytes", .bytes)]
    (named.find? fun m => m.1 = name).map (·.2)

/-- The operation that is tried on each item of a vector, by its name. -/
def forItem? (name : Text) : Option WriteMethod :=
  (ofName? name).or ((misfits.find? fun m => m.1 = name).map (·.2))

end WriteMethod

/-- What an operation puts out. -/
def WriteOp.step : WriteOp → Write.Step
  | one method v => method.step v
  | sized signed v width => Write.sized signed width v
  | vec items method =>
    match items.parts? with
    | none => Output.fail (.notCollection items)
    | some parts => do
      let count ← Output.ofExcept (parts.count.mapError .uncountable)
      Write.vec count parts.items method.step

/-- A growing buffer. -/
structure Writer where
  buffer : List UInt8

namespace Writer

/-- Nothing written yet. -/
def empty : Writer := ⟨[]⟩

/-- The number of bytes written. -/
def length (w : Writer) : Nat := w.buffer.length

/-- What is written, in lower-case hexadecimal. -/
def toHex (w : Writer) : Text := Text.hexOfBytes w.buffer

/-- Appends what an operation puts out, and tells how it ended. -/
def perform (w : Writer) (op : WriteOp) : Writer × Except WriteError Unit :=
  (⟨w.buffer ++ op.step.bytes⟩, op.step.outcome)

end Writer

/-- What is asked of a writer: an operation, or to be set up once more. -/
inductive WriterCall where
  | operation (op : WriteOp)
  | restart

/-- Answers a call. A writer that is set up once more holds nothing. -/
def Writer.call (w : Writer) : WriterCall → Writer × Except WriteError Unit
  | .operation op => w.perform op
  | .restart => (.empty, .ok ())

end BorshWire
