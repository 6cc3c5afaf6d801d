import BorshWire.ByteText.Display
import BorshWire.Text.Basic

/-!
# Types of a schema

The type constructors of a schema and the links by which containers refer to one another. A link
leads to an entry of the type table, or holds a primitive type itself.
-/

namespace BorshWire

/-- The widths of integers. -/
inductive IntWidth where
  | w8
  | w16
  | w32
  | w64
  | w128
  deriving DecidableEq

/-- The number of bytes of a width. -/
def IntWidth.bytes : IntWidth → Nat
  | w8 => 1
  | w16 => 2
  | w32 => 4
  | w64 => 8
  | w128 => 16

/-- An integer type: signed or not, of a fixed width. -/
structure IntKind where
  signed : Bool
  width : IntWidth
  deriving DecidableEq

namespace IntKind

/-- The number of bits. -/
def bits (k : IntKind) : Nat := 8 * k.width.bytes

/-- The name of an integer type: its sign and its bits. -/
def name (k : IntKind) : Text :=
  Text.ofString (if k.signed then "i" else "u") ++ Text.ofNat k.bits

/-- All integer types, the unsigned ones first. -/
def all : List IntKind :=
  [false, true].flatMap fun signed =>
    [IntWidth.w8, IntWidth.w16, IntWidth.w32, IntWidth.w64, IntWidth.w128].map
      fun width => ⟨signed, width⟩

end IntKind

/-- How an integer is shown. -/
inductive IntegerMode where
  | hex
  | decimal
  | fixedPoint
  deriving DecidableEq

/-- The name of a mode in a schema. -/
def IntegerMode.name : IntegerMode → Text
  | hex => "Hex"
  | decimal => "Decimal"
  | fixedPoint => "FixedPoint"

/-- The display hint of an integer; it has no influence on its bytes. -/
structure IntegerDisplay where
  mode : IntegerMode
  decimals : Option Int
  fieldIndex : Option Int
  byteOffset : Option Int
  deriving DecidableEq

/-- Types that refer to no other. -/
inductive Primitive where
  | integer (kind : IntKind) (display : IntegerDisplay)
  | byteArray (length : Nat) (display : ByteDisplay)
  | byteVec (display : ByteDisplay)
  | float32
  | float64
  | string
  | boolean
  /-- A position without bytes. -/
  | skip (length : Nat)
  deriving DecidableEq

/-- A reference from a container to the type of a component. -/
inductive Link where
  | byIndex (index : Nat)
  | immediate (type : Primitive)
  | placeholder
  | indexedPlaceholder (index : Int)
  deriving DecidableEq

/-- One alternative of an enum. The discriminant is the byte written for it. -/
structure Variant where
  name : Text
  discriminant : UInt8
  template : Option Text
  payload : Option Link
  deriving DecidableEq

/-- A component with a name for display. -/
structure NamedField where
  displayName : Text
  type : Link
  silent : Bool
  doc : Text
  deriving DecidableEq

/-- A component known by its position. -/
structure UnnamedField where
  type : Link
  silent : Bool
  doc : Text
  deriving DecidableEq

/-- The type constructors. -/
inductive Ty where
  | primitive (type : Primitive)
  | enumeration (name : Text) (variants : List Variant) (hideTag : Bool)
  | struct (name : Text) (fields : List NamedField) (template : Option Text) (peekable : Bool)
  | tuple (fields : List UnnamedField) (template : Option Text) (peekable : Bool)
  | option (item : Link)
  | array (length : Nat) (item : Link)
  | vec (item : Link)
  | map (key value : Link)
  deriving DecidableEq

/-- A number of things, the word taking an `s` whatever the number. -/
def countOf (n : Nat) (things : String) : Text :=
  Text.concat [" (", Text.ofNat n, " ", things, ")"]

/-- The one-line description of a primitive type. -/
def Primitive.label : Primitive → Text
  | integer kind _ => Text.concat ["Integer ", kind.name]
  | byteArray length display =>
    Text.concat ["ByteArray[", Text.ofNat length, "] (", display.mode, ")"]
  | byteVec display => Text.concat ["ByteVec (", display.mode, ")"]
  | float32 => "Float32"
  | float64 => "Float64"
  | string => "String"
  | boolean => "Boolean"
  | skip _ => "Skip"

/-- The one-line description of a type. -/
def Ty.label : Ty → Text
  | primitive type => type.label
  | enumeration name variants _ =>
    Text.concat ["Enum ", name, countOf variants.length "variants"]
  | struct name fields _ _ => Text.concat ["Struct ", name, countOf fields.length "fields"]
  | tuple fields _ _ => Text.concat ["Tuple", countOf fields.length "fields"]
  | option _ => "Option"
  | array length _ => Text.concat ["Array[", Text.ofNat length, "]"]
  | vec _ => "Vec"
  | map _ _ => "Map"

end BorshWire
