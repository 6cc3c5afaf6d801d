import BorshWire.Number.Double
import BorshWire.Wire.IntRange

/-!
# Views of bytes

A view shows bytes that somebody else owns as an array of items, in one of a few formats and in any
number of dimensions. Only an array of one dimension is gone through item by item, and only in the
formats that are known; the bytes below are there in any case.
-/

namespace BorshWire

/-- What the items of a view are: integers, floats, truth values or single bytes in the formats of
the machine, or something else under a name. -/
inductive ItemFormat where
  | integer (kind : IntKind) (native : kind.width ≠ .w128)
  | single
  | double
  | truth
  | character
  | other (name : Text) (size : Nat)

/-- The number of bytes of an item. -/
def ItemFormat.size : ItemFormat → Nat
  | integer kind _ => kind.width.bytes
  | single => 4
  | double => 8
  | truth => 1
  | character => 1
  | other _ size => size

/-- Bytes shown as an array with so many items in each dimension. -/
structure View where
  format : ItemFormat
  shape : List Nat
  data : List UInt8
  filled : data.length = format.size * shape.foldr (· * ·) 1

/-- Why the items of a sequence are not gone through. -/
inductive Unreadable where
  | noDimension
  | manyDimensions
  | format (name : Text)
  deriving DecidableEq

/-- The refusal in words. -/
def Unreadable.message : Unreadable → Text
  | noDimension => "invalid indexing of 0-dim memory"
  | manyDimensions => "multi-dimensional sub-views are not implemented"
  | format name => Text.concat ["memoryview: unsupported format ", name]

namespace View

/-- The format of bytes as they are. -/
def byteFormat : ItemFormat := .integer ⟨false, .w8⟩ (by decide)

/-- Bytes shown as they are. -/
def ofBytes (data : List UInt8) : View where
  format := byteFormat
  shape := [data.length]
  data := data
  filled := by
    show data.length = 1 * (data.length * 1)
    rw [Nat.one_mul, Nat.mul_one]

/-- The length of a view is that of its first dimension. -/
def length (view : View) : Nat := view.shape.headD 1

/-- Pieces of the same size, one after the other. -/
def pieces (size : Nat) : Nat → List UInt8 → List (List UInt8)
  | 0, _ => []
  | count + 1, data => data.take size :: pieces size count (data.drop size)

/-- The bytes of each item, if the items are gone through. -/
def pieces? (view : View) : Except Unreadable (List (List UInt8)) :=
  match view.shape with
  | [] => .error .noDimension
  | [count] => .ok (pieces view.format.size count view.data)
  | _ => .error .manyDimensions

end View

end BorshWire
