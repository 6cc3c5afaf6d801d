import BorshWire.Text.Basic

/-!
# Encodings of texts

UTF-8 is written; UTF-8, UTF-16 and UTF-32 are read. Writing refuses halves of surrogate pairs.
Reading a file refuses them too, reading a document lets them pass. A refusal names the bytes
that are at fault and the reason.
-/

namespace BorshWire

namespace CodePoint

/-- The byte of a number below 256. -/
def byteOf (n : Nat) : UInt8 := UInt8.ofNat n

/-- The one to four bytes of UTF-8. -/
def utf8 (c : CodePoint) : List UInt8 :=
  let n := c.val
  if n < 0x80 then [byteOf n]
  else if n < 0x800 then [byteOf (0xC0 + n / 0x40), byteOf (0x80 + n % 0x40)]
  else if n < 0x10000 then
    [byteOf (0xE0 + n / 0x1000), byteOf (0x80 + n / 0x40 % 0x40), byteOf (0x80 + n % 0x40)]
  else
    [byteOf (0xF0 + n / 0x40000), byteOf (0x80 + n / 0x1000 % 0x40),
      byteOf (0x80 + n / 0x40 % 0x40), byteOf (0x80 + n % 0x40)]

end CodePoint

/-- The UTF-8 bytes of a text, unless it holds half of a surrogate pair alone. -/
def Text.utf8? (t : Text) : Option (List UInt8) :=
  if t.any CodePoint.isSurrogate then none else some (t.flatMap CodePoint.utf8)

/-- The text with a replacement character for each of the three bytes that half of a surrogate
pair would take. -/
def Text.lossy (t : Text) : Text :=
  t.flatMap fun c => if c.isSurrogate then List.replicate 3 0xFFFD else [c]

/-- The encodings that are told apart when bytes are read. -/
inductive Encoding where
  | utf8
  | utf16 (bigEndian : Bool)
  | utf32 (bigEndian : Bool)

/-- Why bytes are no text. -/
inductive DecodeFault where
  | invalidStart
  | invalidContinuation
  | unexpectedEnd
  | truncated
  | outOfRange

/-- A refusal: the bytes at fault are `count` from `position` on, the first of them `byte`. -/
structure DecodeError where
  encoding : Encoding
  byte : UInt8
  position : Nat
  count : Nat
  fault : DecodeFault

namespace Encoding

/-- The name of an encoding. -/
def name : Encoding → Text
  | utf8 => "utf-8"
  | utf16 big => if big then "utf-16-be" else "utf-16-le"
  | utf32 big => if big then "utf-32-be" else "utf-32-le"

end Encoding

namespace DecodeFault

/-- The reason in words. -/
def message : DecodeFault → Text
  | invalidStart => "invalid start byte"
  | invalidContinuation => "invalid continuation byte"
  | unexpectedEnd => "unexpected end of data"
  | truncated => "truncated data"
  | outOfRange => "code point not in range(0x110000)"

end DecodeFault

namespace DecodeError

/-- The refusal in words. -/
def message (e : DecodeError) : Text :=
  let place : Text :=
    if e.count = 1 then
      Text.concat ["byte 0x", Text.hexOfNat 2 e.byte.toNat, " in position ", Text.ofNat e.position]
    else
      Text.concat ["bytes in position ", Text.ofNat e.position, "-",
        Text.ofNat (e.position + e.count - 1)]
  Text.concat ["'", e.encoding.name, "' codec can't decode ", place, ": ", e.fault.message]

end DecodeError

namespace Encoding

/-- A continuation byte of UTF-8. -/
def isContinuation (b : UInt8) : Bool := decide (0x80 ≤ b.toNat ∧ b.toNat < 0xC0)

/-- The second byte that a lead byte of three or four allows: no longer form than needed, nothing
beyond the last code point, and surrogates only where they pass. -/
def allowsSecond (surrogates : Bool) (lead second : UInt8) : Bool :=
  let l := lead.toNat
  let s := second.toNat
  isContinuation second
    && (l != 0xE0 || decide (0xA0 ≤ s)) && (l != 0xED || surrogates || decide (s < 0xA0))
    && (l != 0xF0 || decide (0x90 ≤ s)) && (l != 0xF4 || decide (s < 0x90))

/-- The number of bytes that a lead byte asks for, zero if it leads nothing. -/
def leadLength (lead : UInt8) : Nat :=
  let l := lead.toNat
  if l < 0x80 then 1 else if l < 0xC2 then 0 else if l < 0xE0 then 2 else if l < 0xF0 then 3
  else if l < 0xF5 then 4 else 0

/-- The last six bits of a continuation byte. -/
def tail (b : UInt8) : Nat := b.toNat % 0x40

/-- Bytes that read as one code point, how many they are, or why they do not. -/
def utf8Step (surrogates : Bool) (lead : UInt8) (rest : List UInt8) :
    Except (Nat × DecodeFault) (CodePoint × Nat) :=
  match leadLength lead, rest with
  | 1, _ => .ok (Fin.ofNat _ lead.toNat, 1)
  | 2, [] => .error (1, .unexpectedEnd)
  | 2, b :: _ =>
    if isContinuation b then .ok (Fin.ofNat _ (lead.toNat % 0x20 * 0x40 + tail b), 2)
    else .error (1, .invalidContinuation)
  | 3, [] => .error (1, .unexpectedEnd)
  | 3, [b] =>
    -- half of a pair passes only as a whole
    if allowsSecond false lead b then .error (2, .unexpectedEnd)
    else .error (1, .invalidContinuation)
  | 3, b :: c :: _ =>
    if !allowsSecond surrogates lead b then .error (1, .invalidContinuation)
    else if isContinuation c then
      .ok (Fin.ofNat _ (lead.toNat % 0x10 * 0x1000 + tail b * 0x40 + tail c), 3)
    else .error (if allowsSecond false lead b then 2 else 1, .invalidContinuation)
  | 4, [] => .error (1, .unexpectedEnd)
  | 4, [b] =>
    if allowsSecond false lead b then .error (2, .unexpectedEnd)
    else .error (1, .invalidContinuation)
  | 4, [b, c] =>
    if !allowsSecond false lead b then .error (1, .invalidContinuation)
    else if isContinuation c then .error (3, .unexpectedEnd)
    else .error (2, .invalidContinuation)
  | 4, b :: c :: d :: _ =>
    if !allowsSecond false lead b then .error (1, .invalidContinuation)
    else if !isContinuation c then .error (2, .invalidContinuation)
    else if !isContinuation d then .error (3, .invalidContinuation)
    else .ok (Fin.ofNat _
      (lead.toNat % 0x08 * 0x40000 + tail b * 0x1000 + tail c * 0x40 + tail d), 4)
  | _, _ => .error (1, .invalidStart)

/-- Reads UTF-8 from a position on; `skip` bytes belong to a code point already read. -/
def decodeUtf8 (surrogates : Bool) (position skip : Nat) : List UInt8 → Except DecodeError Text
  | [] => .ok []
  | b :: rest =>
    match skip with
    | n + 1 => decodeUtf8 surrogates (position + 1) n rest
    | 0 =>
      match utf8Step surrogates b rest with
      | .ok (c, count) => do
        return c :: (← decodeUtf8 surrogates (position + 1) (count - 1) rest)
      | .error (count, fault) => .error ⟨utf8, b, position, count, fault⟩

/-- The number of two bytes in the given order. -/
def unit (bigEndian : Bool) (a b : UInt8) : Nat :=
  if bigEndian then a.toNat * 256 + b.toNat else b.toNat * 256 + a.toNat

/-- Puts the halves of surrogate pairs that stand side by side together. -/
def joinPairs : Text → Text
  | [] => []
  | [c] => [c]
  | c :: d :: rest =>
    if c.isHighSurrogate && d.isLowSurrogate then
      CodePoint.ofSurrogates c d :: joinPairs rest
    else c :: joinPairs (d :: rest)

/-- Reads the units of UTF-16 from a position on, pairs still apart. -/
def decodeUnits (bigEndian : Bool) (position : Nat) : List UInt8 → Except DecodeError Text
  | [] => .ok []
  | [a] => .error ⟨utf16 bigEndian, a, position, 1, .truncated⟩
  | a :: b :: rest => do
    return Fin.ofNat _ (unit bigEndian a b) :: (← decodeUnits bigEndian (position + 2) rest)

/-- Reads UTF-32 from a position on. -/
def decodeUtf32 (bigEndian : Bool) (position : Nat) : List UInt8 → Except DecodeError Text
  | [] => .ok []
  | a :: b :: c :: d :: rest =>
    let n :=
      if bigEndian then unit true a b * 0x10000 + unit true c d
      else unit false c d * 0x10000 + unit false a b
    if n < 0x110000 then do
      return Fin.ofNat _ n :: (← decodeUtf32 bigEndian (position + 4) rest)
    else .error ⟨utf32 bigEndian, a, position, 4, .outOfRange⟩
  | a :: rest => .error ⟨utf32 bigEndian, a, position, rest.length + 1, .truncated⟩

/-- Reads bytes after a mark of `start` bytes; halves of surrogate pairs pass. -/
def decodeFrom (e : Encoding) (start : Nat) (data : List UInt8) : Except DecodeError Text :=
  match e with
  | utf8 => decodeUtf8 true 0 0 (data.drop start)
  | utf16 big => joinPairs <$> decodeUnits big start (data.drop start)
  | utf32 big => decodeUtf32 big start (data.drop start)

/-- The encoding of a document, and the length of the mark it starts with. Without a mark the
places of zero bytes tell, because a document starts with ASCII. -/
def detect (data : List UInt8) : Encoding × Nat :=
  let starts (mark : List UInt8) : Bool := mark.isPrefixOf data
  if starts [0x00, 0x00, 0xFE, 0xFF] then (utf32 true, 4)
  else if starts [0xFF, 0xFE, 0x00, 0x00] then (utf32 false, 4)
  else if starts [0xFE, 0xFF] then (utf16 true, 2)
  else if starts [0xFF, 0xFE] then (utf16 false, 2)
  else if starts [0xEF, 0xBB, 0xBF] then (utf8, 3)
  else match data with
    | a :: b :: c :: d :: _ =>
      if a = 0 then (if b = 0 then utf32 true else utf16 true, 0)
      else if b = 0 then (if c = 0 ∧ d = 0 then utf32 false else utf16 false, 0)
      else (utf8, 0)
    | [a, b] =>
      if a = 0 then (utf16 true, 0) else if b = 0 then (utf16 false, 0) else (utf8, 0)
    | _ => (utf8, 0)

end Encoding

/-- Reads a document in the encoding that its first bytes show. -/
def Text.ofDocument (data : List UInt8) : Except DecodeError Text :=
  let (encoding, start) := Encoding.detect data
  encoding.decodeFrom start data

/-- Reads UTF-8 without surrogates. -/
def Text.ofUtf8 (data : List UInt8) : Except DecodeError Text :=
  Encoding.decodeUtf8 false 0 0 data

end BorshWire
