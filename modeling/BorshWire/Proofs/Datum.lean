import BorshWire.Number.Double
import BorshWire.Text.Basic

/-!
# What stands at a position

A datum is the content of a position of some type, with everything gone that the wire does not hold:
names, display hints, the class and the spelling of a value.
-/

namespace BorshWire

/-- The content of a position: floats by their bits, the components of a struct in wire order, a
variant by its place in the declaration. -/
inductive Datum where
  | unit
  | bool (b : Bool)
  | integer (n : Int)
  | single (word : BitVec 32)
  | double (word : BitVec 64)
  | text (t : Text)
  | bytes (data : List UInt8)
  | struct (fields : List Datum)
  /-- A variant without a payload. -/
  | bare (position : Nat)
  | variant (position : Nat) (payload : Datum)
  | absent
  | present (item : Datum)
  | list (items : List Datum)
  | map (entries : List (Datum × Datum))
  deriving Inhabited

end BorshWire
