import BorshWire.Proofs.Bytes.Reader
import BorshWire.Proofs.Datum
import BorshWire.Schema.Basic
import BorshWire.Text.Encoding

/-!
# The decoder of a schema

Bytes are read back along the links of a schema, without any metadata. A discriminant that no
variant has, a truth value or an option byte other than zero and one, and bytes that are no text are
refused.
-/

namespace BorshWire

/-- Takes the word of a truth value: zero or one. -/
def Reader.flag : Reader Bool := do
  let b ← byte
  if b = 0 then return false
  else if b = 1 then return true
  else ofOption none

namespace Schema

/-- Reads what the type of a link holds. -/
def decodeLink (s : Schema) (next : Ty → Reader Datum) (link : Link) : Reader Datum := do
  let type ← Reader.ofOption (s.resolve link).toOption
  next type

/-- Reads a primitive. -/
def decodePrimitive (type : Primitive) : Reader Datum :=
  match type with
  | .integer kind _ => (fun data => .integer (kind.ofBytes data)) <$> Reader.take kind.width.bytes
  | .byteArray length _ => Datum.bytes <$> Reader.take length
  | .byteVec _ => do
    let n ← Reader.count
    Datum.bytes <$> Reader.take n
  | .float32 => (fun data => .single (BitVec.ofNat 32 (ofLittleEndian data))) <$> Reader.take 4
  | .float64 => (fun data => .double (BitVec.ofNat 64 (ofLittleEndian data))) <$> Reader.take 8
  | .string => do
    let n ← Reader.count
    let data ← Reader.take n
    Datum.text <$> Reader.ofOption (Text.ofUtf8 data).toOption
  | .boolean => Datum.bool <$> Reader.flag
  | .skip _ => pure .unit

/-- Reads an enum: the variant with the discriminant, then its payload. -/
def decodeEnumeration (s : Schema) (next : Ty → Reader Datum) (variants : List Variant) :
    Reader Datum := do
  let b ← Reader.byte
  let position ← Reader.ofOption (variants.findIdx? fun variant => variant.discriminant == b)
  let variant ← Reader.ofOption variants[position]?
  match variant.payload with
  | none => return .bare position
  | some link => Datum.variant position <$> s.decodeLink next link

/-- Reads a tuple. One field is read as itself. -/
def decodeTuple (s : Schema) (next : Ty → Reader Datum) (fields : List UnnamedField) :
    Reader Datum :=
  match fields with
  | [field] => s.decodeLink next field.type
  | fields => Datum.list <$> fields.mapM fun field => s.decodeLink next field.type

/-- Reads an entry of a map. -/
def decodeEntry (s : Schema) (next : Ty → Reader Datum) (key value : Link) :
    Reader (Datum × Datum) := do
  let a ← s.decodeLink next key
  let b ← s.decodeLink next value
  return (a, b)

/-- The decoder at one level, given the decoder at the next. -/
def decodeStep (s : Schema) (next : Ty → Reader Datum) : Ty → Reader Datum
  | .primitive type => decodePrimitive type
  | .enumeration _ variants _ => s.decodeEnumeration next variants
  | .struct _ fields _ _ => Datum.struct <$> fields.mapM fun field => s.decodeLink next field.type
  | .tuple fields _ _ => s.decodeTuple next fields
  | .option item => do
    if ← Reader.flag then Datum.present <$> s.decodeLink next item else return .absent
  | .array length item => Datum.list <$> Reader.times (s.decodeLink next item) length
  | .vec item => do
    let n ← Reader.count
    Datum.list <$> Reader.times (s.decodeLink next item) n
  | .map key value => do
    let n ← Reader.count
    Datum.map <$> Reader.times (s.decodeEntry next key value) n

/-- The decoder over at most the given number of levels. -/
def decodeWithin (s : Schema) : Nat → Ty → Reader Datum
  | 0 => fun _ => Reader.ofOption none
  | levels + 1 => s.decodeStep (s.decodeWithin levels)

/-- Reads an entry of the type table. Links are followed up to a depth, the root itself being at
depth zero. -/
def decode (s : Schema) (maxDepth index : Nat) : Reader Datum := do
  let type ← Reader.ofOption s.types[index]?
  s.decodeWithin (maxDepth + 1) type

end Schema

end BorshWire
