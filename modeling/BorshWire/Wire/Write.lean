import BorshWire.Text.Encoding
import BorshWire.Value.Sequence
import BorshWire.Value.Spelling
import BorshWire.Wire.IntRange
import BorshWire.Wire.Output

/-!
# Writing Borsh

The primitive writes: fixed-width integers and floats with the lowest byte first, truth values,
texts and sequences after their count. A value is checked before anything of it is put out.
-/

namespace BorshWire

/-- Why a primitive is not written. -/
inductive WriteError where
  | outOfRange (type : Text) (value : Value)
  | loneSurrogate
  | notByte
  | notInteger (value : Value)
  /-- An integer that fits a double but not a single. -/
  | singleOverflow
  | notText (value : Value)
  | notBytes (value : Value)
  /-- A text where bytes are asked for, without a word on its encoding. -/
  | unencodedText
  | negativeCount
  | notCollection (value : Value)
  | uncountable (reason : Uncountable)
  | unreadable (reason : Unreadable)
  /-- What is no number where the width of an integer is asked for. -/
  | notWidth (signed : Bool) (width : Value)
  | negativeWidth
  | vastWidth
  /-- A width with an integer of more digits than are converted. -/
  | unspelledWidth
  /-- An integer that its bits hold, but not the whole bytes among them. -/
  | brokenByte
  | vastBytes
  | noMemory
  /-- An operation that takes more or less than the items of a sequence. -/
  | misfit (reason : Text)

namespace Write

/-- A primitive write. -/
abbrev Step := Output WriteError Unit

/-- The integer that a value stands for: one itself, or a float without a fraction. -/
def integral? : Value → Option Int
  | .int n => some n
  | .float x => x.toInt?
  | _ => none

/-- Writes an integer in the width of its type. -/
def integer (k : IntKind) (v : Value) : Step :=
  match integral? v with
  | some n =>
    if k.range.contains n then Output.emit (k.range.bytes n)
    else Output.fail (.outOfRange k.name v)
  | none => Output.fail (.outOfRange k.name v)

theorem integer_yields_iff {k : IntKind} {v : Value} {bytes : List UInt8} :
    (integer k v).Yields bytes () ↔
      ∃ n, integral? v = some n ∧ k.range.contains n = true ∧ bytes = k.range.bytes n := by
  unfold integer
  cases integral? v with
  | none => exact ⟨nofun, fun ⟨_, h, _⟩ => nomatch h⟩
  | some n =>
    by_cases hc : k.range.contains n = true
    · simp only [if_pos hc, Output.yields_emit_iff]
      constructor
      · rintro rfl
        exact ⟨n, rfl, hc, rfl⟩
      · rintro ⟨m, hm, _, rfl⟩
        rw [Option.some.inj hm]
    · simp only [if_neg hc]
      constructor
      · exact fun h => absurd h Output.not_yields_fail
      · rintro ⟨m, hm, hc', _⟩
        exact absurd (Option.some.inj hm ▸ hc') hc

/-- The type of counts. -/
def countKind : IntKind := ⟨false, .w32⟩

/-- Writes a count in four bytes. -/
def count (n : Nat) : Step := integer countKind (.int n)

theorem count_yields_iff {n : Nat} {bytes : List UInt8} :
    (count n).Yields bytes () ↔ n < twoPow 32 ∧ bytes = littleEndian 4 n := by
  have hcontains : countKind.range.contains n = true ↔ n < twoPow 32 := by
    rw [IntRange.contains, decide_eq_true_eq]
    show (0 : Int) ≤ n ∧ (n : Int) ≤ 4294967295 ↔ n < 4294967296
    omega
  rw [count, integer_yields_iff]
  constructor
  · rintro ⟨m, hm, hc, rfl⟩
    obtain rfl : (n : Int) = m := Option.some.inj hm
    have hlt : n < 4294967296 := hcontains.mp hc
    refine ⟨hlt, congrArg (littleEndian 4) ?_⟩
    show ((n : Int) % 4294967296).toNat = n
    omega
  · rintro ⟨hlt, rfl⟩
    refine ⟨n, rfl, hcontains.mpr hlt, congrArg (littleEndian 4) ?_⟩
    have hlt' : n < 4294967296 := hlt
    show n = ((n : Int) % 4294967296).toNat
    omega

/-- Writes one byte. -/
def byte (b : UInt8) : Step := Output.emit [b]

/-- The double that a number comes to, if that is finite. -/
def finite? : Value → Option Double
  | .int n =>
    let x := Double.ofInt n
    if x.isFinite then some x else none
  | .float x => if x.isFinite then some x else none
  | _ => none

theorem finite?_float (x : Double) :
    finite? (.float x) = if x.isFinite then some x else none := rfl

/-- The bytes of a single. -/
def singleBytes (x : Double) : List UInt8 := littleEndian 4 x.toSingle.toNat

/-- The magnitude of a single word is that of infinity. -/
def isInfiniteSingle (w : BitVec 32) : Bool :=
  decide (w.toNat % twoPow 31 = BinaryFormat.single.infinity)

/-- Writes a number in single precision. A float beyond the range becomes infinite, an integer
beyond it is refused. -/
def single (v : Value) : Step :=
  match finite? v with
  | none => Output.fail (.outOfRange "f32" v)
  | some x =>
    match v with
    | .int _ =>
      if isInfiniteSingle x.toSingle then Output.fail .singleOverflow
      else Output.emit (singleBytes x)
    | _ => Output.emit (singleBytes x)

/-- Writes a number in double precision. -/
def double (v : Value) : Step :=
  match finite? v with
  | none => Output.fail (.outOfRange "f64" v)
  | some x => Output.emit (littleEndian 8 x.bits.toNat)

theorem single_yields_iff {x : Double} {bytes : List UInt8} :
    (single (.float x)).Yields bytes () ↔ x.isFinite = true ∧ bytes = singleBytes x := by
  rw [single, finite?_float]
  by_cases hx : x.isFinite = true
  · rw [if_pos hx]
    exact ⟨fun h => ⟨hx, (Output.yields_emit_iff.mp h).symm⟩,
      fun h => Output.yields_emit_iff.mpr h.2.symm⟩
  · rw [if_neg hx]
    exact ⟨nofun, fun h => absurd h.1 hx⟩

theorem double_yields_iff {x : Double} {bytes : List UInt8} :
    (double (.float x)).Yields bytes () ↔
      x.isFinite = true ∧ bytes = littleEndian 8 x.bits.toNat := by
  rw [double, finite?_float]
  by_cases hx : x.isFinite = true
  · rw [if_pos hx]
    exact ⟨fun h => ⟨hx, (Output.yields_emit_iff.mp h).symm⟩,
      fun h => Output.yields_emit_iff.mpr h.2.symm⟩
  · rw [if_neg hx]
    exact ⟨nofun, fun h => absurd h.1 hx⟩

/-- Writes a truth value as one byte. -/
def boolean (b : Bool) : Step := byte (if b then 1 else 0)

/-- Writes a text in UTF-8 after the number of its bytes. -/
def string (t : Text) : Step :=
  match t.utf8? with
  | none => Output.fail .loneSurrogate
  | some data => do
    count data.length
    Output.emit data

theorem string_yields_iff {t : Text} {bytes : List UInt8} :
    (string t).Yields bytes () ↔
      ∃ data, t.utf8? = some data ∧ data.length < twoPow 32 ∧
        bytes = littleEndian 4 data.length ++ data := by
  unfold string
  cases t.utf8? with
  | none => exact ⟨nofun, fun ⟨_, h, _⟩ => nomatch h⟩
  | some data =>
    constructor
    · intro h
      obtain ⟨front, _, back, hcount, hdata, rfl⟩ := Output.yields_bind_iff.mp h
      obtain ⟨hlt, rfl⟩ := count_yields_iff.mp hcount
      obtain rfl := Output.yields_emit_iff.mp hdata
      exact ⟨data, rfl, hlt, rfl⟩
    · rintro ⟨_, hdata, hlt, rfl⟩
      obtain rfl := Option.some.inj hdata
      exact Output.yields_bind_iff.mpr
        ⟨_, (), _, count_yields_iff.mpr ⟨hlt, rfl⟩, Output.yields_emit_iff.mpr rfl, rfl⟩

/-- The first number of bytes that no memory holds. -/
def maxBytes : Nat := twoPow 37

/-- Makes room for a number of bytes. Room for what a signed word of 64 bits just holds is refused
for the few bytes that have to go with it. -/
def room (n : Nat) : Except WriteError Unit :=
  if twoPow 63 ≤ n + 33 then .error .vastBytes
  else if maxBytes ≤ n then .error .noMemory
  else .ok ()

/-- Writes bytes as they are. -/
def bytes (data : List UInt8) : Step := Output.emit data

/-- The byte that an item of a sequence stands for. -/
def byteOf : Value → Except WriteError UInt8
  | .int n => if 0 ≤ n ∧ n ≤ 255 then .ok (UInt8.ofNat n.toNat) else .error .notByte
  | .bool b => .ok (if b then 1 else 0)
  | v => .error (.notInteger v)

/-- Writes a sequence of numbers as bytes. A range is not gone through beyond its first number that
is no byte. -/
def byteItems (items : Items) : Step :=
  match items with
  | .listed values => do
    let data ← Output.ofExcept (values.mapM byteOf)
    Output.emit data
  | .spaced numbers => do
    let data ← Output.ofExcept ((numbers.first Progression.maxByteItems).mapM fun n => byteOf (.int n))
    Output.emit data
  | .sealed _ reason => Output.fail (.unreadable reason)

/-- One step for each item of a sequence, unless its items are not seen. -/
def forItems {ε : Type} (refuse : Unreadable → ε) (items : Items) (f : Value → Output ε Unit) :
    Output ε Unit :=
  match items with
  | .listed values => Output.forEach f values
  | .spaced numbers => Output.forCount (fun i => f (.int (numbers.item i))) 0 numbers.length
  | .sealed _ reason => Output.fail (refuse reason)

/-- Writes the items of a sequence after a count. -/
def vec (n : Nat) (items : Items) (f : Value → Step) : Step := do
  count n
  forItems .unreadable items f

end Write

namespace WriteError

/-- A primitive write is refused, in words. -/
def words : WriteError → Text
  | outOfRange type value => Text.concat ["Invalid ", type, " value: ", value.plain]
  | loneSurrogate => "String is not valid UTF-8: surrogates not allowed"
  | notByte => "bytes must be in range(0, 256)"
  | notInteger value =>
    Text.concat ["'", value.className, "' object cannot be interpreted as an integer"]
  | singleOverflow => "int too large to convert"
  | notText value => Text.concat ["'", value.className, "' object has no attribute 'encode'"]
  | notBytes value => Text.concat ["cannot convert '", value.className, "' object to bytes"]
  | unencodedText => "string argument without an encoding"
  | negativeCount => "negative count"
  | notCollection value =>
    Text.concat ["object of type '", value.className, "' has no len()"]
  | uncountable reason => reason.message
  | unreadable reason => reason.message
  | notWidth true (.float _) => "unsupported operand type(s) for <<: 'int' and 'float'"
  | notWidth true width =>
    Text.concat ["unsupported operand type(s) for -: '", width.className, "' and 'int'"]
  | notWidth false width =>
    Text.concat ["unsupported operand type(s) for <<: 'int' and '", width.className, "'"]
  | negativeWidth => "negative shift count"
  | vastWidth => "too many digits in integer"
  | unspelledWidth => unspelledWords
  | brokenByte => "int too big to convert"
  | vastBytes => "byte string is too large"
  | noMemory => ""
  | misfit reason => reason

/-- The numbers in these words. -/
def numbers : WriteError → List Int
  | outOfRange _ value => value.numbers
  | _ => []

end WriteError

end BorshWire
