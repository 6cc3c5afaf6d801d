import BorshWire.ByteText.Display
import BorshWire.Json.Fault
import BorshWire.Text.Quoted

/-!
# Refused byte texts

Why a text is no byte string under the display of its position.
-/

namespace BorshWire

/-- Why a checksummed text is refused. -/
inductive Bech32Error where
  | tooLong
  | mixedCase
  | noSeparator
  | noHrp
  | invalidHrp
  | tooShort
  | unknownCharacter (c : CodePoint)
  | invalidChecksum
  | otherHrp (expected found : Text)
  | excessPadding
  deriving DecidableEq

/-- Why a byte text is refused; the text itself is kept where the message quotes it. A decimal
number too long to be converted is a refusal of another class. -/
inductive ByteTextError where
  | oddHex
  | notHex (c : CodePoint) (position : Nat)
  | notList (text : Text)
  | notByte (text item : Text)
  | byteTooLarge (text : Text) (value : Nat)
  | digitLimit (digits : Nat)
  | bech32 (variant : Bech32Variant) (text : Text) (reason : Bech32Error)
  deriving DecidableEq

/-- The reason in words, for the text that was refused. -/
def Bech32Error.message (text : Text) : Bech32Error → Text
  | tooLong => "Exceeds length limit"
  | mixedCase => Text.concat ["Mixed-case string ", text]
  | noSeparator => Text.concat ["No separator character for ", text]
  | noHrp => Text.concat ["Missing prefix for ", text]
  | invalidHrp => Text.concat ["Invalid prefix for ", text]
  | tooShort => "Data too short"
  | unknownCharacter c => Text.concat ["Unknown character ", [c]]
  | invalidChecksum => Text.concat ["Invalid checksum for ", text]
  | otherHrp expected found =>
    Text.concat ["Expected prefix '", expected, "' but got '", found, "'"]
  | excessPadding => "Excess padding"

/-- The name of a checksum rule in messages. -/
def Bech32Variant.label : Bech32Variant → Text
  | bech32 => "bech32"
  | bech32m => "bech32m"

/-- The refusal in words. -/
def ByteTextError.message : ByteTextError → Text
  | oddHex => "Invalid hex string: Odd number of digits"
  | notHex c position =>
    Text.concat ["Invalid hex string: Invalid character ", Text.quoted [c], " at position ",
      Text.ofNat position]
  | notList text =>
    Text.concat ["Invalid decimal byte list ", text.quoted,
      ": expected a bracketed list such as [1, 2, 3]"]
  | notByte text item =>
    Text.concat ["Invalid decimal byte list ", text.quoted, ": ", item.quoted, " is not a byte"]
  | byteTooLarge text value =>
    Text.concat ["Invalid decimal byte list ", text.quoted, ": ", Text.ofNat value,
      " does not fit in a byte"]
  | digitLimit digits => digitLimitMessage digits
  | bech32 variant text reason =>
    Text.concat ["Failed to decode ", variant.label, ": ", reason.message text]

end BorshWire
