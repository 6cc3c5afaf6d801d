import BorshWire.Text.Encoding

/-!
# Faults of documents

Why a document is not read: it breaks the grammar at a place, names a constant that is refused,
holds an integer of too many digits, nests too deeply, or its bytes are no text.
-/

namespace BorshWire

/-- An integer numeral has more digits than are converted. -/
def digitLimitMessage (digits : Nat) : Text :=
  Text.concat ["Exceeds the limit (4300 digits) for integer string conversion: value has ",
    Text.ofNat digits, " digits; use sys.set_int_max_str_digits() to increase the limit"]

namespace Json

/-- What the grammar asked for, or met. -/
inductive Breach where
  | expectedValue
  | expectedName
  | expectedColon
  | expectedComma
  | extraData
  | unterminatedString
  | controlCharacter
  | invalidEscape
  | invalidUnicodeEscape
  | byteOrderMark
  deriving DecidableEq

/-- A place in a document; `line` and `column` count from one, `offset` from zero. -/
structure Place where
  line : Nat
  column : Nat
  offset : Nat

/-- Why a document is not read. -/
inductive Fault where
  | breach (what : Breach) (place : Place)
  | constant (name : Text)
  | digitLimit (digits : Nat)
  | undecodable (error : DecodeError)
  | tooDeep

/-- A breach of the grammar in words. -/
def Breach.message : Breach → Text
  | expectedValue => "Expecting value"
  | expectedName => "Expecting property name enclosed in double quotes"
  | expectedColon => "Expecting ':' delimiter"
  | expectedComma => "Expecting ',' delimiter"
  | extraData => "Extra data"
  | unterminatedString => "Unterminated string starting at"
  | controlCharacter => "Invalid control character at"
  | invalidEscape => "Invalid \\escape"
  | invalidUnicodeEscape => "Invalid \\uXXXX escape"
  | byteOrderMark => "Unexpected UTF-8 BOM (decode using utf-8-sig)"

/-- The place of an offset into a text; only a line feed starts a line. -/
def Place.of (doc : Text) (offset : Nat) : Place :=
  let before := doc.take offset
  let line := before.count 0x0A + 1
  let column := (before.reverse.takeWhile (· != 0x0A)).length + 1
  ⟨line, column, offset⟩

/-- A fault in words. -/
def Fault.message : Fault → Text
  | breach what place =>
    Text.concat [what.message, ": line ", Text.ofNat place.line, " column ",
      Text.ofNat place.column, " (char ", Text.ofNat place.offset, ")"]
  | constant name => Text.concat [name, " is not a valid JSON number"]
  | digitLimit digits => digitLimitMessage digits
  | undecodable error => error.message
  | tooDeep => "maximum recursion depth exceeded"

end Json

end BorshWire
