import BorshWire.ByteText.Error
import BorshWire.Text.Case

/-!
# Bech32

Checksummed base 32 (BIP-173) and its successor Bech32m (BIP-350): a human-readable part, the
last `1` as separator, data of five bits a character, and a checksum of six characters over both.
The two rules differ in the constant that the checksum of a valid text comes to.
-/

namespace BorshWire

namespace Bech32

/-- Five bits. -/
abbrev Word := BitVec 5

/-- The character of each word. -/
def charset : Text := "qpzry9x8gf2tvdw0s3jn54khce6mua7l"

/-- The number of characters of a checksum. -/
def checksumLength : Nat := 6

/-- What the checksum of a valid text comes to. -/
def target : Bech32Variant → BitVec 30
  | .bech32 => 1
  | .bech32m => 0x2BC830A3

/-- What the five bits shifted out of the checksum put back into it, lowest bit first. -/
def generators : List (BitVec 30) :=
  [0x3B6A57B2, 0x26508E6D, 0x1EA119FA, 0x3D4233DD, 0x2A1462B3]

/-- The generators of the bits that are set in the top five bits. -/
def feedback (check : BitVec 30) : BitVec 30 :=
  (generators.zipIdx 25).foldl (fun sum g => if check.getLsbD g.2 then sum ^^^ g.1 else sum) 0

/-- The checksum after one more value. -/
def step (check : BitVec 30) (value : Nat) : BitVec 30 :=
  (check <<< 5) ^^^ BitVec.ofNat 30 value ^^^ feedback check

/-- The checksum of a list of values. -/
def polymod (values : List Nat) : BitVec 30 := values.foldl step 1

/-- The values that stand for a human-readable part: the high bits of its characters, a zero, and
their low five bits. -/
def expandHrp (hrp : Text) : List Nat :=
  hrp.map (fun c => c.val / 32) ++ 0 :: hrp.map (fun c => c.val % 32)

/-- The six words that make the checksum of a text come to its target. -/
def checksum (variant : Bech32Variant) (hrp : Text) (words : List Word) : List Word :=
  let rest := polymod (expandHrp hrp ++ words.map (·.toNat) ++ List.replicate checksumLength 0)
    ^^^ target variant
  (List.range checksumLength).map fun i => (rest >>> (5 * (5 - i))).setWidth 5

@[simp] theorem length_checksum (variant : Bech32Variant) (hrp : Text) (words : List Word) :
    (checksum variant hrp words).length = checksumLength := by
  simp only [checksum, List.length_map, List.length_range]

/-- The bits of a number, highest first. -/
def bitsOf : Nat → Nat → List Bool
  | 0, _ => []
  | width + 1, n => n.testBit width :: bitsOf width n

@[simp] theorem length_bitsOf (width n : Nat) : (bitsOf width n).length = width := by
  induction width with
  | zero => rfl
  | succ width ih => simp only [bitsOf, List.length_cons, ih]

/-- The number of these bits, highest first. -/
def ofBits (bits : List Bool) : Nat := bits.foldl (fun n b => 2 * n + b.toNat) 0

/-- Bits in groups of five, the last group filled up with zeros. -/
def wordsOfBits : List Bool → List Word
  | a :: b :: c :: d :: e :: rest => BitVec.ofNat 5 (ofBits [a, b, c, d, e]) :: wordsOfBits rest
  | [] => []
  | bits => [BitVec.ofNat 5 (ofBits (bits ++ List.replicate (5 - bits.length) false))]

/-- Bits in groups of eight. Fewer than five bits may be left, all of them zero. -/
def bytesOfBits? : List Bool → Option (List UInt8)
  | a :: b :: c :: d :: e :: f :: g :: h :: rest =>
    (bytesOfBits? rest).map (UInt8.ofNat (ofBits [a, b, c, d, e, f, g, h]) :: ·)
  | bits => if bits.length < 5 ∧ bits.all (! ·) then some [] else none

/-- The words of a byte string. -/
def wordsOfBytes (data : List UInt8) : List Word :=
  wordsOfBits (data.flatMap fun b => bitsOf 8 b.toNat)

/-- The byte string of words, unless they are padded by a whole word or by a set bit. -/
def bytesOfWords? (words : List Word) : Option (List UInt8) :=
  bytesOfBits? (words.flatMap fun w => bitsOf 5 w.toNat)

/-- The character of a word. -/
def charOf (w : Word) : CodePoint := charset.getD w.toNat 0

/-- The word of a character. -/
def wordOf? (c : CodePoint) : Option Word := (charset.idxOf? c).map (BitVec.ofNat 5)

/-- The words of a text, or the first character that has none. -/
def wordsOf : Text → Except CodePoint (List Word)
  | [] => .ok []
  | c :: rest =>
    match wordOf? c with
    | none => .error c
    | some w => (wordsOf rest).map (w :: ·)

/-- The text of a byte string under a human-readable part. -/
def render (variant : Bech32Variant) (hrp : Text) (data : List UInt8) : Text :=
  let words := wordsOfBytes data
  hrp ++ 0x31 :: (words ++ checksum variant hrp words).map charOf

/-- The parts of a text before and after its last `1`. -/
def splitLast (t : Text) : Option (Text × Text) :=
  let after := (t.reverse.takeWhile (· != 0x31)).reverse
  if after.length = t.length then none
  else some (t.take (t.length - after.length - 1), after)

/-- Reads a text of at most `maxLength` characters. The checks come one after the other, so that
each fault has a message of its own. -/
def parse (variant : Bech32Variant) (expected : Text) (maxLength : Int) (t : Text) :
    Except Bech32Error (List UInt8) := do
  if maxLength < t.length then throw .tooLong
  if !t.isLower && !t.isUpper then throw .mixedCase
  let some (hrp, tail) := splitLast t.lower | throw .noSeparator
  if hrp.isEmpty then throw .noHrp
  if hrp.any fun c => decide (c.val < 33 ∨ 126 < c.val) then throw .invalidHrp
  if tail.length < checksumLength then throw .tooShort
  let words ← (wordsOf tail).mapError .unknownCharacter
  if polymod (expandHrp hrp ++ words.map (·.toNat)) ≠ target variant then throw .invalidChecksum
  if hrp ≠ expected then throw (.otherHrp expected hrp)
  match bytesOfWords? (words.take (words.length - checksumLength)) with
  | some data => return data
  | none => throw .excessPadding

end Bech32

end BorshWire
