import BorshWire.Descriptor.Checked
import BorshWire.Number.Numeral
import BorshWire.Text.Blank
import BorshWire.Text.Encoding
import BorshWire.Value.Basic

/-!
# Scalars of a descriptor

Integers and truth values may be written in several ways: as each other, as a float without a
fraction, or as text. A text may be given by its UTF-8 bytes. Where a text is read for what it
says, it must not hold halves of surrogate pairs.
-/

namespace BorshWire

namespace Descriptor

/-- The most digits of an integer in text. -/
def maxIntegerText : Nat := 4300

/-- Takes the sign off a text: whether it is a minus, and the rest. A minus after a plus is
refused. -/
def splitSign? : Text → Option (Bool × Text)
  | 0x2B :: 0x2D :: _ => none
  | 0x2B :: rest => some (false, rest)
  | 0x2D :: rest => some (true, rest)
  | t => some (false, t)

/-- Drops the zeros, and the underscores among them, before the first other digit or a minus;
what does not start with a digit is refused. One character is always left. -/
def dropLeadingZeros? : Text → Option Text
  | [] => none
  | c :: rest =>
    if c = 0x30 then skip c rest
    else if c.isDigit then some (c :: rest)
    else none
where
  /-- Goes on past zeros and underscores; `last` is the character before. -/
  skip (last : CodePoint) : Text → Option Text
    | [] => some [last]
    | c :: rest =>
      if c = 0x30 ∨ c = 0x5F then skip c rest
      else if c.isDigit || c = 0x2D then some (c :: rest)
      else if c = 0x2E then some (last :: c :: rest)
      else none

/-- Cuts off a fraction of zeros, at least one. -/
def dropZeroFraction (t : Text) : Text :=
  let whole := t.takeWhile (· != 0x2E)
  let fraction := t.drop (whole.length + 1)
  if !fraction.isEmpty && fraction.all (· = 0x30) then whole else t

/-- Two neighbours are underscores. -/
def hasDoubleUnderscore : Text → Bool
  | c :: d :: rest => c = 0x5F && d = 0x5F || hasDoubleUnderscore (d :: rest)
  | _ => false

/-- Takes single underscores out of the inside of a text. -/
def dropUnderscores (t : Text) : Text :=
  if t.head? = some 0x5F || t.getLast? = some 0x5F || hasDoubleUnderscore t then t
  else t.filter (· != 0x5F)

/-- The sign of an integer in text, and the text without blanks, sign, leading zeros, fraction of
zeros and underscores. -/
def cleanInteger? (t : Text) : Option (Bool × Text) := do
  let (negative, t) ← splitSign? (t.trim CodePoint.isWhiteSpace)
  let t ← dropLeadingZeros? t
  return (negative, dropUnderscores (dropZeroFraction t))

/-- The text starts, after a minus if there is one, with more digits than an integer may have, and
the first of them is not zero. -/
def isOverlong (t : Text) : Bool :=
  let body := if t.head? = some 0x2D then t.drop 1 else t
  let digits := (Numeral.takeDigits body).1
  digits.head? != some 0x30 && maxIntegerText < digits.length

/-- Reads an integer from text. The minus may also come after leading zeros, but only one of
them. That it has too many digits is said only of a text as it is written; what has them once it
is cleaned is merely unreadable. -/
def integerOfText (t : Text) : Checked Int :=
  if isOverlong t then .complain .oversizedInteger
  else
    match cleanInteger? t with
    | none => .complain .unreadableInteger
    | some (signed, t) =>
      let (negative, digits) := match signed, t with
        | false, 0x2D :: rest => (true, rest)
        | signed, t => (signed, t)
      let n : Int := Text.toNat digits
      if digits.isEmpty || !digits.all CodePoint.isDigit || maxIntegerText < digits.length ||
          digits.head? = some 0x30 && 1 < digits.length then
        .complain .unreadableInteger
      else .sound (if negative then -n else n)

/-- Reads an integer from a float: integral and of a magnitude below two to the 63rd. -/
def integerOfDouble (x : Double) : Checked Int :=
  match x.toInt? with
  | some n => if n.natAbs < twoPow 63 then .sound n else .complain .oversizedInteger
  | none => .complain (if x.isFinite then .fractionalInteger else .notFinite)

/-- A text without halves of surrogate pairs. -/
def wholeText (t : Text) : Checked Text :=
  if t.any CodePoint.isSurrogate then .complain .brokenText else .sound t

/-- The text of UTF-8 bytes, or else the given complaint. -/
def textOfBytes (otherwise : Complaint) (data : List UInt8) : Checked Text :=
  match Text.ofUtf8 data with
  | .ok t => .sound t
  | .error _ => .complain otherwise

/-- An integer of any size. -/
def integer : Value → Checked Int
  | .int n => .sound n
  | .bool b => .sound (if b then 1 else 0)
  | .float x => integerOfDouble x
  | .text t => (wholeText t).andThen integerOfText
  | .buffer .frozen data => (textOfBytes .unreadableInteger data).andThen integerOfText
  | _ => .complain .notInteger

/-- A length or an index: an integer that is not negative. -/
def natural (v : Value) : Checked Nat :=
  (integer v).andThen fun n => if n < 0 then .complain (.belowMinimum 0) else .sound n.toNat

/-- A number from 0 to 255. -/
def byte (v : Value) : Checked UInt8 :=
  (natural v).andThen fun n =>
    if 255 < n then .complain (.aboveMaximum 255) else .sound (UInt8.ofNat n)

/-- A text, or the text of a byte buffer that owns its bytes. -/
def text : Value → Checked Text
  | .text t => .sound t
  | .buffer .frozen data => textOfBytes .brokenText data
  | .buffer .growable data => textOfBytes .brokenText data
  | _ => .complain .notText

/-- A capital ASCII letter made small. -/
def lowerAscii (c : CodePoint) : CodePoint :=
  if 0x41 ≤ c.val ∧ c.val ≤ 0x5A then c + 0x20 else c

/-- The words for true. -/
def trueWords : List Text := ["1", "t", "true", "y", "yes", "on"]

/-- The words for false. -/
def falseWords : List Text := ["0", "f", "false", "n", "no", "off"]

/-- The truth value of a number; one beyond 64 bits is not looked at. -/
def boolOfInt (n : Int) : Checked Bool :=
  if n = 0 then .sound false
  else if n = 1 then .sound true
  else if n < -twoPow 63 ∨ twoPow 63 ≤ n then .complain .notBool
  else .complain .unreadableBool

/-- The truth value that a word of either case stands for. -/
def boolOfText (t : Text) : Checked Bool :=
  let word := t.map lowerAscii
  if trueWords.contains word then .sound true
  else if falseWords.contains word then .sound false
  else .complain .unreadableBool

/-- A truth value. -/
def bool : Value → Checked Bool
  | .bool b => .sound b
  | .int n => boolOfInt n
  | .float x =>
    match integerOfDouble x with
    | .sound n => boolOfInt n
    | .faulty _ _ => .complain .notBool
  | .text t => (wholeText t).andThen boolOfText
  | .buffer .frozen data => (textOfBytes .unreadableBool data).andThen boolOfText
  | _ => .complain .notBool

/-- What may be left out by writing null. -/
def optional {α : Type} (check : Value → Checked α) : Value → Checked (Option α)
  | .null => .sound none
  | v => some <$> check v

/-- The complaint about what is none of a few named things. -/
def otherThan {α : Type} (name : α → Text) (choices : List α) : Complaint :=
  .notAmong (choices.map name)

/-- The choice that has a name. -/
def choiceNamed {α : Type} (name : α → Text) (choices : List α) (t : Text) : Checked α :=
  match choices.find? fun a => name a = t with
  | some a => .sound a
  | none => .complain (otherThan name choices)

/-- One of a few named things, by its name as a text. -/
def among {α : Type} (name : α → Text) (choices : List α) : Value → Checked α
  | .text t => (wholeText t).andThen (choiceNamed name choices)
  | _ => .complain (otherThan name choices)

/-- One of a few named things, by its name as a text or as a byte buffer that owns its bytes. -/
def amongEncoded {α : Type} (name : α → Text) (choices : List α) : Value → Checked α
  | .buffer .frozen data =>
    (textOfBytes (otherThan name choices) data).andThen (choiceNamed name choices)
  | .buffer .growable data =>
    (textOfBytes (otherThan name choices) data).andThen (choiceNamed name choices)
  | v => among name choices v

/-- A list of parts, each checked. -/
def list {α : Type} (check : Value → Checked α) : Value → Checked (List α)
  | .list items => Checked.all check 0 items
  | .tuple items => Checked.all check 0 items
  | .range numbers => Checked.all check 0 (numbers.toList.map .int)
  | .view shown => Checked.all check 0 (shown.data.map fun b => .int b.toNat)
  | _ => .complain .notList

end Descriptor

end BorshWire
