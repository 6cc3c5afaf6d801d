/-!
# Text

A text is a list of code points. Half of a surrogate pair counts as a code point, because an
escape in a document can name one alone; every place that cannot hold such a half refuses it
itself.
-/

namespace BorshWire

/-- The number of code points, as a bound for the numerals among them. -/
instance instNeZeroCodePoints : @NeZero Nat Zero.ofOfNat0 0x110000 := ⟨by decide⟩

/-- A code point: any number below `0x110000`. -/
abbrev CodePoint := Fin 0x110000

/-- A text is a list of code points. -/
abbrev Text := List CodePoint

namespace CodePoint

/-- The code point of a character. -/
def ofChar (c : Char) : CodePoint := Fin.ofNat _ c.toNat

/-- The first half of a surrogate pair. -/
def isHighSurrogate (c : CodePoint) : Bool := decide (0xD800 ≤ c.val ∧ c.val < 0xDC00)

/-- The second half of a surrogate pair. -/
def isLowSurrogate (c : CodePoint) : Bool := decide (0xDC00 ≤ c.val ∧ c.val < 0xE000)

/-- Either half of a surrogate pair. -/
def isSurrogate (c : CodePoint) : Bool := c.isHighSurrogate || c.isLowSurrogate

/-- The code point that a surrogate pair stands for. -/
def ofSurrogates (high low : CodePoint) : CodePoint :=
  Fin.ofNat _ (0x10000 + (high.val - 0xD800) * 0x400 + (low.val - 0xDC00))

/-- One of the ten ASCII digits. -/
def isDigit (c : CodePoint) : Bool := decide (0x30 ≤ c.val ∧ c.val ≤ 0x39)

/-- The number that an ASCII digit stands for. -/
def digitValue (c : CodePoint) : Nat := c.val - 0x30

/-- The number that a hexadecimal digit of either case stands for. -/
def hexValue? (c : CodePoint) : Option Nat :=
  if 0x30 ≤ c.val ∧ c.val ≤ 0x39 then some (c.val - 0x30)
  else if 0x61 ≤ c.val ∧ c.val ≤ 0x66 then some (c.val - 0x57)
  else if 0x41 ≤ c.val ∧ c.val ≤ 0x46 then some (c.val - 0x37)
  else none

/-- The lower-case hexadecimal digit of a number below sixteen. -/
def hexDigit (n : Nat) : CodePoint := Fin.ofNat _ (if n < 10 then n + 0x30 else n + 0x57)

end CodePoint

namespace Text

/-- The code points of a string. -/
def ofString (s : String) : Text := s.toList.map CodePoint.ofChar

instance : Coe String Text := ⟨ofString⟩

/-- The pieces one after the other. -/
def concat (pieces : List Text) : Text := pieces.flatten

/-- The pieces with a separator between neighbours. -/
def join (separator : Text) : List Text → Text
  | [] => []
  | [t] => t
  | t :: rest => t ++ separator ++ join separator rest

/-- The decimal digits of a number, without leading zeros. -/
def ofNat (n : Nat) : Text := (Nat.toDigits 10 n).map CodePoint.ofChar

/-- A number in decimal, with a minus sign where it is negative. -/
def ofInt : Int → Text
  | .ofNat n => ofNat n
  | .negSucc n => CodePoint.ofChar '-' :: ofNat (n + 1)

/-- The number that a run of ASCII digits stands for. -/
def toNat (digits : Text) : Nat := digits.foldl (fun n c => 10 * n + c.digitValue) 0

/-- The last `width` hexadecimal digits of a number, in lower case. -/
def hexOfNat : Nat → Nat → Text
  | 0, _ => []
  | width + 1, n => hexOfNat width (n / 16) ++ [CodePoint.hexDigit (n % 16)]

@[simp] theorem length_hexOfNat (width n : Nat) : (hexOfNat width n).length = width := by
  induction width generalizing n with
  | zero => rfl
  | succ width ih => simp only [hexOfNat, List.length_append, ih, List.length_singleton]

/-- Two lower-case hexadecimal digits for each byte. -/
def hexOfBytes (data : List UInt8) : Text := data.flatMap fun b => hexOfNat 2 b.toNat

@[simp] theorem length_hexOfBytes (data : List UInt8) :
    (hexOfBytes data).length = 2 * data.length := by
  induction data with
  | nil => rfl
  | cons b rest ih =>
    simp only [hexOfBytes, List.flatMap_cons, List.length_append, length_hexOfNat,
      List.length_cons] at ih ⊢
    omega

/-- Reads two hexadecimal digits for each byte; anything else is refused. -/
def bytesOfHex? : Text → Option (List UInt8)
  | [] => some []
  | [_] => none
  | a :: b :: rest => do
    let high ← a.hexValue?
    let low ← b.hexValue?
    let data ← bytesOfHex? rest
    return UInt8.ofNat (16 * high + low) :: data

/-- The text without a given start, if it has that start. -/
def dropStart? (t start : Text) : Option Text :=
  if start.isPrefixOf t then some (t.drop start.length) else none

/-- Cuts a text at every separator; there is always one piece more than there are separators. -/
def splitOn (separator : CodePoint) : Text → List Text
  | [] => [[]]
  | c :: rest =>
    if c = separator then [] :: splitOn separator rest
    else match splitOn separator rest with
      | [] => [[c]]
      | piece :: pieces => (c :: piece) :: pieces

theorem length_splitOn (separator : CodePoint) (t : Text) :
    (splitOn separator t).length = t.count separator + 1 := by
  induction t with
  | nil => rfl
  | cons c rest ih =>
    unfold splitOn
    split
    · rename_i h
      rw [List.length_cons, ih, h, List.count_cons_self]
    · rename_i h
      rw [List.count_cons_of_ne h, ← ih]
      cases cut : splitOn separator rest with
      | nil => rw [cut, List.length_nil] at ih; omega
      | cons piece pieces => rfl

end Text

end BorshWire
