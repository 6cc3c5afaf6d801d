import BorshWire.ByteText.Bech32
import BorshWire.Number.Numeral
import BorshWire.Text.Blank

/-!
# Byte texts

Reading and writing a byte string in the form that a display names: two hexadecimal digits a
byte after an optional `0x`, a bracketed list of decimal numbers, or Bech32.
-/

namespace BorshWire

namespace ByteText

/-- The first character that is no hexadecimal digit, and its position from `position` on. -/
def firstNotHex (position : Nat) : Text → Option (CodePoint × Nat)
  | [] => none
  | c :: rest => if c.hexValue?.isNone then some (c, position) else firstNotHex (position + 1) rest

/-- Reads hexadecimal digits of either case after an optional `0x`. -/
def parseHex (t : Text) : Except ByteTextError (List UInt8) :=
  let digits := (t.dropStart? "0x").getD t
  if digits.length % 2 = 1 then .error .oddHex
  else match firstNotHex 0 digits with
    | some (c, position) => .error (.notHex c position)
    | none => .ok ((Text.bytesOfHex? digits).getD [])

/-- What stands between the brackets of a list. -/
def listBody? (t : Text) : Option Text :=
  match t.strip with
  | 0x5B :: rest => if rest.getLast? = some 0x5D then some rest.dropLast else none
  | _ => none

/-- Reads one number of the list `text`. -/
def parseItem (text item : Text) : Except ByteTextError UInt8 :=
  let digits := item.strip
  if digits.isEmpty || !digits.all CodePoint.isDigit then .error (.notByte text digits)
  else if maxIntegerDigits < digits.length then .error (.digitLimit digits.length)
  else
    let n := Text.toNat digits
    if 255 < n then .error (.byteTooLarge text n) else .ok (UInt8.ofNat n)

/-- Reads a bracketed list of numbers between commas, blanks allowed around each. -/
def parseDecimal (t : Text) : Except ByteTextError (List UInt8) :=
  match listBody? t with
  | none => .error (.notList t)
  | some body =>
    if body.strip.isEmpty then .ok [] else (Text.splitOn 0x2C body).mapM (parseItem t)

/-- Reads a text under a display; `maxLength` bounds the checksummed forms. -/
def parse (display : ByteDisplay) (maxLength : Int) (t : Text) :
    Except ByteTextError (List UInt8) :=
  match display with
  | .hex _ => parseHex t
  | .decimal _ => parseDecimal t
  | .checksummed variant hrp _ =>
    (Bech32.parse variant hrp maxLength t).mapError (.bech32 variant t)

/-- Writes a byte string under a display. -/
def render (display : ByteDisplay) (data : List UInt8) : Text :=
  match display with
  | .hex _ => Text.concat ["0x", Text.hexOfBytes data]
  | .decimal _ =>
    Text.concat ["[", Text.join ", " (data.map fun b => Text.ofNat b.toNat), "]"]
  | .checksummed variant hrp _ => Bech32.render variant hrp data

end ByteText

end BorshWire
