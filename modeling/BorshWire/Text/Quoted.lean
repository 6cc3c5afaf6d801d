import BorshWire.Text.Printable

/-!
# Quoted texts

A text or a byte string as messages show it: between single quotes, or between double quotes if
it holds a single quote and no double one. The quote in use and the backslash are escaped, line
feed, carriage return and tab have escapes of their own, and whatever is not printable is
written by number. The bytes of a buffer that can grow differ in one thing: in them it is always
the single quote that is escaped.
-/

namespace BorshWire

/-- The quote that surrounds these code points. -/
def quoteFor (t : Text) : CodePoint :=
  if t.contains 0x27 && !t.contains 0x22 then 0x22 else 0x27

namespace CodePoint

/-- The escape of a code point by its number, as short as its size allows. -/
def numericEscape (c : CodePoint) : Text :=
  if c.val < 0x100 then Text.ofString "\\x" ++ Text.hexOfNat 2 c.val
  else if c.val < 0x10000 then Text.ofString "\\u" ++ Text.hexOfNat 4 c.val
  else Text.ofString "\\U" ++ Text.hexOfNat 8 c.val

/-- A code point inside a text where `quote` is escaped and `shown` tells what is written as is. -/
def quotedWith (quote : CodePoint) (shown : CodePoint → Bool) (c : CodePoint) : Text :=
  if c = quote ∨ c = 0x5C then [0x5C, c]
  else if c = 0x0A then [0x5C, 0x6E]
  else if c = 0x0D then [0x5C, 0x72]
  else if c = 0x09 then [0x5C, 0x74]
  else if shown c then [c]
  else c.numericEscape

end CodePoint

namespace Text

/-- The text between quotes. -/
def quoted (t : Text) : Text :=
  let quote := quoteFor t
  quote :: t.flatMap (CodePoint.quotedWith quote CodePoint.isPrintable) ++ [quote]

/-- The text of Latin-1 bytes. -/
def ofLatin1 (data : List UInt8) : Text := data.map fun b => Fin.ofNat _ b.toNat

/-- A byte string between `quote`s, after the letter `b`; the quote `escaped` takes a backslash,
and only ASCII is shown as it is. -/
def bytesBetween (quote escaped : CodePoint) (data : List UInt8) : Text :=
  let shown (c : CodePoint) : Bool := decide (0x20 ≤ c.val ∧ c.val < 0x7F)
  0x62 :: quote :: (ofLatin1 data).flatMap (CodePoint.quotedWith escaped shown) ++ [quote]

/-- The bytes between quotes, of which the one in use is escaped. -/
def quotedBytes (data : List UInt8) : Text :=
  let quote := quoteFor (ofLatin1 data)
  bytesBetween quote quote data

/-- The bytes of a buffer that can grow between quotes; the single quote is escaped, whichever is
in use. -/
def quotedGrowable (data : List UInt8) : Text := bytesBetween (quoteFor (ofLatin1 data)) 0x27 data

end Text

end BorshWire
