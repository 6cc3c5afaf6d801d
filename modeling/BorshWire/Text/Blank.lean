import BorshWire.Text.Basic

/-!
# Blank characters

Two sets of blank code points are in use. Integers and map keys in values, and byte texts, are
trimmed of `isBlank`, which holds the information separators U+001C to U+001F as well. Texts of
floats, and the integers of schema descriptors and of the command line, are trimmed of the
property `White_Space`, which does not.
-/

namespace BorshWire

namespace CodePoint

/-- The Unicode property `White_Space`. -/
def isWhiteSpace (c : CodePoint) : Bool :=
  let n := c.val
  decide (9 ≤ n ∧ n ≤ 13 ∨ n = 0x20 ∨ n = 0x85 ∨ n = 0xA0 ∨ n = 0x1680 ∨ 0x2000 ≤ n ∧ n ≤ 0x200A
    ∨ n = 0x2028 ∨ n = 0x2029 ∨ n = 0x202F ∨ n = 0x205F ∨ n = 0x3000)

/-- White space, or one of the four information separators. -/
def isBlank (c : CodePoint) : Bool :=
  decide (0x1C ≤ c.val ∧ c.val ≤ 0x1F) || c.isWhiteSpace

theorem isBlank_of_isWhiteSpace {c : CodePoint} (h : c.isWhiteSpace = true) : c.isBlank = true := by
  simp only [isBlank, h, Bool.or_true]

end CodePoint

namespace Text

/-- The text without the characters of a class at its two ends. -/
def trim (p : CodePoint → Bool) (t : Text) : Text :=
  ((t.dropWhile p).reverse.dropWhile p).reverse

/-- The text without blanks at its two ends. -/
def strip (t : Text) : Text := t.trim CodePoint.isBlank

end Text

end BorshWire
