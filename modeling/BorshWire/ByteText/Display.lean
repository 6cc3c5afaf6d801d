import BorshWire.Text.Basic

/-!
# Byte displays

How a byte position lets its content be written as text. The two checksummed forms belong to a
human-readable part, which is never empty; the other forms may carry one that plays no role.
-/

namespace BorshWire

/-- The two checksum rules of Bech32. -/
inductive Bech32Variant where
  | bech32
  | bech32m
  deriving DecidableEq

/-- The textual form of a byte position. -/
inductive ByteDisplay where
  | hex (hrp : Option Text)
  | decimal (hrp : Option Text)
  | checksummed (variant : Bech32Variant) (hrp : Text) (nonempty : hrp ≠ [])
  deriving DecidableEq

/-- The name of a checksum rule in a schema. -/
def Bech32Variant.name : Bech32Variant → Text
  | bech32 => "Bech32"
  | bech32m => "Bech32m"

namespace ByteDisplay

/-- The name of the form in a schema. -/
def mode : ByteDisplay → Text
  | hex _ => "Hex"
  | decimal _ => "Decimal"
  | checksummed variant _ _ => variant.name

/-- The human-readable part, if there is one. -/
def hrp? : ByteDisplay → Option Text
  | hex hrp => hrp
  | decimal hrp => hrp
  | checksummed _ hrp _ => some hrp

end ByteDisplay

end BorshWire
