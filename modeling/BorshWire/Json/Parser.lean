import BorshWire.Json.Fault
import BorshWire.Number.Numeral
import BorshWire.Value.Basic

/-!
# Reading documents

A JSON reader over code points that reports the first fault from the left with its place. The
order of members is kept; a name that comes again keeps its first place and takes its last
value. Arrays and objects nest as deep as a bound allows, and going deeper is a fault of its own.
-/

namespace BorshWire

namespace Json

/-- What is left of a document, and how much of it came before. -/
structure Cursor where
  offset : Nat
  rest : Text

/-- A fault before its offset is turned into a place. -/
inductive Stop where
  | breach (what : Breach) (offset : Nat)
  | constant (name : Text)
  | digitLimit (digits : Nat)
  | tooDeep

/-- The outcome of reading one thing at a cursor. -/
abbrev Read (α : Type) := Except Stop (α × Cursor)

namespace Cursor

/-- Past the first `n` code points. -/
def advance (c : Cursor) (n : Nat) : Cursor := ⟨c.offset + n, c.rest.drop n⟩

/-- Space, tab, line feed and carriage return. -/
def isSpace (c : CodePoint) : Bool := c = 0x20 || c = 0x09 || c = 0x0A || c = 0x0D

/-- Past the white space. -/
def skipSpace (c : Cursor) : Cursor := c.advance (c.rest.takeWhile isSpace).length

/-- A refusal at the cursor. -/
def refuse {α : Type} (c : Cursor) (what : Breach) : Except Stop α :=
  .error (.breach what c.offset)

end Cursor

/-- The number of four hexadecimal digits. -/
def hexUnit? : Text → Option Nat
  | [a, b, c, d] => do
    return ((← a.hexValue?) * 16 + (← b.hexValue?)) * 256
      + ((← c.hexValue?) * 16 + (← d.hexValue?))
  | _ => none

/-- The code point of a short escape. -/
def shortEscape? (c : CodePoint) : Option CodePoint :=
  if c = 0x22 ∨ c = 0x5C ∨ c = 0x2F then some c
  else if c = 0x62 then some 0x08
  else if c = 0x66 then some 0x0C
  else if c = 0x6E then some 0x0A
  else if c = 0x72 then some 0x0D
  else if c = 0x74 then some 0x09
  else none

/-- The second half of a pair, if it follows as an escape that is not the end of the document. -/
def lowHalf? : Text → Except Unit (Option CodePoint)
  | 0x5C :: 0x75 :: rest =>
    if (rest.take 5).length < 5 then .ok none
    else match hexUnit? (rest.take 4) with
      | none => .error ()
      | some n =>
        let low : CodePoint := Fin.ofNat _ n
        .ok (if low.isLowSurrogate then some low else none)
  | _ => .ok none

/-- The escape after the backslash at `offset`, in a string that starts at `opening`: the code
point and the length of the escape with its backslash. A number escape is not read at the very
end of a document. -/
def readEscape (opening offset : Nat) : Text → Except Stop (CodePoint × Nat)
  | [] => .error (.breach .unterminatedString opening)
  | e :: rest =>
    if e ≠ 0x75 then
      match shortEscape? e with
      | some d => .ok (d, 2)
      | none => .error (.breach .invalidEscape offset)
    else if (rest.take 5).length < 5 then .error (.breach .invalidUnicodeEscape (offset + 1))
    else match hexUnit? (rest.take 4) with
      | none => .error (.breach .invalidUnicodeEscape (offset + 1))
      | some n =>
        let high : CodePoint := Fin.ofNat _ n
        if high.isHighSurrogate then
          match lowHalf? (rest.drop 4) with
          | .error () => .error (.breach .invalidUnicodeEscape (offset + 7))
          | .ok (some low) => .ok (CodePoint.ofSurrogates high low, 12)
          | .ok none => .ok (high, 6)
        else .ok (high, 6)

/-- The rest of a string that starts at `opening`, from `offset` on; `skip` code points belong to
an escape already read, and `before` holds what is read, last first. -/
def readString (opening offset skip : Nat) (before : Text) : Text → Read Text
  | [] => .error (.breach .unterminatedString opening)
  | d :: rest =>
    match skip with
    | n + 1 => readString opening (offset + 1) n before rest
    | 0 =>
      if d = 0x22 then .ok (before.reverse, ⟨offset + 1, rest⟩)
      else if d = 0x5C then
        match readEscape opening offset rest with
        | .error stop => .error stop
        | .ok (e, n) => readString opening (offset + 1) (n - 1) (e :: before) rest
      else if d.val < 0x20 then .error (.breach .controlCharacter offset)
      else readString opening (offset + 1) 0 (d :: before) rest

/-- A string, with the cursor past its opening quote. -/
def string (c : Cursor) : Read Text := readString (c.offset - 1) c.offset 0 [] c.rest

/-- The digits that a point or an exponent mark asks for, if there are any. -/
def takeSome (t : Text) : Option (Text × Text) :=
  let (digits, rest) := Numeral.takeDigits t
  if digits.isEmpty then none else some (digits, rest)

/-- A fraction at the start of a text, its length, and what follows. -/
def takeFraction (t : Text) : Option Text × Nat × Text :=
  match t with
  | 0x2E :: rest =>
    match takeSome rest with
    | some (digits, rest) => (some digits, digits.length + 1, rest)
    | none => (none, 0, t)
  | _ => (none, 0, t)

/-- A sign, its length, and what follows. -/
def takeSign (t : Text) : Bool × Nat × Text :=
  match t with
  | 0x2D :: rest => (true, 1, rest)
  | 0x2B :: rest => (false, 1, rest)
  | _ => (false, 0, t)

/-- An exponent at the start of a text, and its length. -/
def takeExponent : Text → Option Int × Nat
  | [] => (none, 0)
  | e :: rest =>
    if e = 0x65 ∨ e = 0x45 then
      let (negative, signLength, body) := takeSign rest
      match takeSome body with
      | some (digits, _) =>
        let n : Int := Text.toNat digits
        (some (if negative then -n else n), 1 + signLength + digits.length)
      | none => (none, 0)
    else (none, 0)

/-- The digits before the point: a zero alone, or any that start with another digit. -/
def takeWhole : Text → Text × Text
  | 0x30 :: rest => ([0x30], rest)
  | t => Numeral.takeDigits t

/-- The longest number at the cursor. One without fraction and exponent is an integer. -/
def number (c : Cursor) : Read Value :=
  let (negative, body) := match c.rest with
    | 0x2D :: rest => (true, rest)
    | t => (false, t)
  let (whole, rest) := takeWhole body
  if whole.isEmpty then c.refuse .expectedValue
  else
    let (fraction, fractionLength, rest) := takeFraction rest
    let (exponent, exponentLength) := takeExponent rest
    let numeral : Numeral := ⟨negative, whole, fraction, exponent⟩
    let signLength := if negative then 1 else 0
    let past := c.advance (signLength + whole.length + fractionLength + exponentLength)
    if !numeral.isInteger then .ok (.float numeral.toDouble, past)
    else if maxIntegerDigits < whole.length then .error (.digitLimit whole.length)
    else .ok (.int numeral.toInt, past)

/-- The three words for what is no number of JSON. -/
def constants : List (Text × Double) :=
  [("NaN", Double.nan), ("Infinity", Double.infinite false), ("-Infinity", Double.infinite true)]

/-- The three words of JSON. -/
def words : List (Text × Value) := [("null", .null), ("true", .bool true), ("false", .bool false)]

/-- A word, a constant or a number. -/
def scalar (allowConstants : Bool) (c : Cursor) : Read Value :=
  match words.find? fun w => w.1.isPrefixOf c.rest with
  | some (word, v) => .ok (v, c.advance word.length)
  | none =>
    match constants.find? fun w => w.1.isPrefixOf c.rest with
    | some (word, x) =>
      if allowConstants then .ok (.float x, c.advance word.length) else .error (.constant word)
    | none => number c

/-- The items of an array from one item on, up to and with the closing bracket. Every item takes
some of the document, so `fuel` of its length is enough. -/
def items (value : Cursor → Read Value) : Nat → List Value → Cursor → Read (List Value)
  | 0, _, c => c.refuse .expectedValue
  | fuel + 1, before, c =>
    match value c with
    | .error stop => .error stop
    | .ok (v, c) =>
      let c := c.skipSpace
      match c.rest with
      | 0x5D :: _ => .ok ((v :: before).reverse, c.advance 1)
      | 0x2C :: _ => items value fuel (v :: before) (c.advance 1).skipSpace
      | _ => c.refuse .expectedComma

/-- The members of an object from one member on, up to and with the closing brace. -/
def members (value : Cursor → Read Value) :
    Nat → List (Key × Value) → Cursor → Read (List (Key × Value))
  | 0, _, c => c.refuse .expectedName
  | fuel + 1, before, c =>
    match c.rest with
    | 0x22 :: _ =>
      match string (c.advance 1) with
      | .error stop => .error stop
      | .ok (name, c) =>
        let c := c.skipSpace
        match c.rest with
        | 0x3A :: _ =>
          match value (c.advance 1).skipSpace with
          | .error stop => .error stop
          | .ok (v, c) =>
            let c := c.skipSpace
            let entries := Value.insertEntry (.text name) v before
            match c.rest with
            | 0x7D :: _ => .ok (entries, c.advance 1)
            | 0x2C :: _ => members value fuel entries (c.advance 1).skipSpace
            | _ => c.refuse .expectedComma
        | _ => c.refuse .expectedColon
    | _ => c.refuse .expectedName

/-- An array, with the cursor past its opening bracket. -/
def array (value : Cursor → Read Value) (c : Cursor) : Read Value :=
  let c := c.skipSpace
  match c.rest with
  | 0x5D :: _ => .ok (.list [], c.advance 1)
  | _ => (items value (c.rest.length + 1) [] c).map fun r => (.list r.1, r.2)

/-- An object, with the cursor past its opening brace. -/
def object (value : Cursor → Read Value) (c : Cursor) : Read Value :=
  let c := c.skipSpace
  match c.rest with
  | 0x7D :: _ => .ok (.map [], c.advance 1)
  | _ => (members value (c.rest.length + 1) [] c).map fun r => (.map r.1, r.2)

/-- A value at the cursor, with the reader for what is nested in it. -/
def valueWith (allowConstants : Bool) (nested : Option (Cursor → Read Value)) (c : Cursor) :
    Read Value :=
  match c.rest, nested with
  | [], _ => c.refuse .expectedValue
  | 0x22 :: _, _ => (string (c.advance 1)).map fun r => (.text r.1, r.2)
  | 0x5B :: _, some value => array value (c.advance 1)
  | 0x7B :: _, some value => object value (c.advance 1)
  | 0x5B :: _, none => .error .tooDeep
  | 0x7B :: _, none => .error .tooDeep
  | _, _ => scalar allowConstants c

/-- A value of at most `depth` nested arrays and objects. -/
def value (allowConstants : Bool) : Nat → Cursor → Read Value
  | 0 => valueWith allowConstants none
  | depth + 1 => valueWith allowConstants (some (value allowConstants depth))

/-- Turns the offset of a fault into a place of the document. -/
def Stop.fault (doc : Text) : Stop → Fault
  | breach what offset => .breach what (Place.of doc offset)
  | constant name => .constant name
  | digitLimit digits => .digitLimit digits
  | tooDeep => .tooDeep

/-- Reads one value that fills the whole document but for white space around it. -/
def readAll (allowConstants : Bool) (depth : Nat) (doc : Text) : Except Stop Value := do
  let (v, c) ← value allowConstants depth (Cursor.skipSpace ⟨0, doc⟩)
  let c := c.skipSpace
  if c.rest.isEmpty then return v else c.refuse .extraData

/-- How deep documents nest. -/
def maxNesting : Nat := 990

/-- Reads a document of a bounded depth; one that starts with a byte order mark is refused. -/
def parseWithin (allowConstants : Bool) (depth : Nat) (doc : Text) : Except Fault Value :=
  if doc.head? = some 0xFEFF then .error (.breach .byteOrderMark (Place.of doc 0))
  else (readAll allowConstants depth doc).mapError (Stop.fault doc)

end Json

/-- A document as it arrives: as text, or as bytes in one of the encodings of Unicode. -/
inductive Document where
  | text (t : Text)
  | bytes (data : List UInt8)

namespace Document

/-- Reads a document; `allowConstants` lets `NaN` and the infinities stand for floats. The mark at
the start of bytes is no part of the document. -/
def parse (allowConstants : Bool) : Document → Except Json.Fault Value
  | text t => Json.parseWithin allowConstants Json.maxNesting t
  | bytes data =>
    match Text.ofDocument data with
    | .error e => .error (.undecodable e)
    | .ok t => (Json.readAll allowConstants Json.maxNesting t).mapError (Json.Stop.fault t)

end Document

end BorshWire
