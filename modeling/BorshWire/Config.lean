import BorshWire.Text.Basic

/-!
# Limits

The two limits of an encoder: how deep it follows links, and how long a checksummed byte text
may be. Besides, a caller leaves it so much room on the stack and no more.
-/

namespace BorshWire

/-- The least bound on checksummed texts: one character, the separator and a checksum. -/
def minBech32Length : Nat := 8

/-- The limits of an encoder. -/
structure Config where
  maxDepth : Nat := 256
  maxBech32Length : Nat := 90
  maxDepth_pos : 0 < maxDepth := by decide
  maxBech32Length_ge : minBech32Length ≤ maxBech32Length := by decide

/-- The room that a caller leaves on the stack: for so many levels of the walk over types and values,
and for so many levels of nesting in a value that is normalised before. -/
structure Stack where
  levels : Nat
  nesting : Nat

/-- Why limits are refused. -/
inductive ConfigError where
  | maxDepth (given : Int)
  | maxBech32Length (given : Int)

namespace Config

/-- The default limits. -/
def default : Config := {}

/-- The limits given; those left out have their defaults. -/
def make (maxDepth maxBech32Length : Option Int) : Except ConfigError Config :=
  let depth := maxDepth.getD default.maxDepth
  let length := maxBech32Length.getD default.maxBech32Length
  if hd : 0 < depth.toNat then
    if hl : minBech32Length ≤ length.toNat then .ok ⟨depth.toNat, length.toNat, hd, hl⟩
    else .error (.maxBech32Length length)
  else .error (.maxDepth depth)

end Config

/-- The refusal in words. -/
def ConfigError.message : ConfigError → Text
  | maxDepth given => Text.concat ["max_depth must be > 0, got ", Text.ofInt given]
  | maxBech32Length given =>
    Text.concat ["max_bech32_length must be >= 8, got ", Text.ofInt given]

end BorshWire
