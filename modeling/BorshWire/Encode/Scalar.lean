import BorshWire.ByteText.Codec
import BorshWire.Encode.Error

/-!
# Scalar positions

How values are read at the positions of the primitive types: numbers also from text, truth
values also from their words, byte strings from every sequence of bytes and from the text that
the position's display declares.
-/

namespace BorshWire

namespace Encode

/-- The number that a numeral stands for: an integer if it has neither point nor exponent, else a
float. Integers of too many digits are not converted. -/
def numberOf? (n : Numeral) : Option Value :=
  if n.isInteger then
    if maxIntegerDigits < n.whole.length then none else some (.int n.toInt)
  else some (.float n.toDouble)

/-- The number that a text stands for, blanks around it aside. -/
def numberOfText? (t : Text) : Option Value := (Numeral.read? t.strip).bind numberOf?

theorem number_of_numberOfText? {t : Text} {v : Value} (h : numberOfText? t = some v) :
    (∃ n, v = .int n) ∨ ∃ x, v = .float x := by
  obtain ⟨n, _, hn⟩ := Option.bind_eq_some_iff.mp h
  unfold numberOf? at hn
  split at hn
  · split at hn
    · cases hn
    · exact .inl ⟨_, (Option.some.inj hn).symm⟩
  · exact .inr ⟨_, (Option.some.inj hn).symm⟩

/-- The number at an integer position. -/
def integerValue (kind : IntKind) (v : Value) : Except EncodeError Value :=
  match v with
  | .int _ => .ok v
  | .float _ => .ok v
  | .text t =>
    match numberOfText? t with
    | some n => .ok n
    | none => .error (.unexpected kind.name v)
  | _ => .error (.unexpected kind.name v)

/-- The double nearest to a number or to what a text stands for. The text may have white space
around it, but no information separators. -/
def nearestDouble? : Value → Option Double
  | .int n => some (Double.ofInt n)
  | .float x => some x
  | .text t => (Numeral.read? (t.trim CodePoint.isWhiteSpace)).map Numeral.toDouble
  | _ => none

/-- The finite double at a float position of the given name. -/
def floatValue (name : Text) (v : Value) : Except EncodeError Double :=
  match nearestDouble? v with
  | some x => if x.isFinite then .ok x else .error (.unexpected name v)
  | none => .error (.unexpected name v)

/-- The truth value at a boolean position. -/
def boolValue (v : Value) : Except EncodeError Bool :=
  match v with
  | .bool b => .ok b
  | .text t =>
    if t = "true" then .ok true
    else if t = "false" then .ok false
    else .error (.unexpected "bool" v)
  | _ => .error (.unexpected "bool" v)

/-- The byte that an item of a sequence stands for. -/
def byteValue (v : Value) : Except EncodeError UInt8 :=
  match v with
  | .int n =>
    if 0 ≤ n ∧ n ≤ 255 then .ok (UInt8.ofNat n.toNat) else .error (.unexpected "byte" v)
  | _ => .error (.unexpected "byte" v)

/-- The bytes of a sequence. A range is not gone through beyond its first number that is no
byte. -/
def byteItems : Items → Except EncodeError (List UInt8)
  | .listed values => values.mapM byteValue
  | .spaced numbers =>
    (numbers.first Progression.maxByteItems).mapM fun n => byteValue (.int n)
  | .sealed _ reason => .error (.unreadable reason)

theorem byteValue_int_error {n : Int} (h : ¬(0 ≤ n ∧ n ≤ 255)) :
    ∃ err, byteValue (.int n) = .error err := ⟨_, if_neg h⟩

theorem byteItems_spaced (numbers : Progression) :
    byteItems (.spaced numbers) = byteItems (.listed (Items.spaced numbers).toList) := by
  show _ = ((numbers.toList.map Value.int).mapM byteValue)
  rw [List.mapM_map]
  exact numbers.mapM_first fun _ => byteValue_int_error

@[simp] theorem byteItems_ofByte (data : List UInt8) :
    byteItems (.listed (data.map Value.ofByte)) = .ok data := by
  show (data.map Value.ofByte).mapM byteValue = .ok data
  induction data with
  | nil => rfl
  | cons b rest ih =>
    have hbyte : byteValue (.ofByte b) = .ok b := by
      have hlt := b.toNat_lt
      rw [Value.ofByte, byteValue, if_pos (by omega), Int.toNat_natCast, UInt8.ofNat_toNat]
    rw [List.map_cons, List.mapM_cons, hbyte, ih]
    rfl

/-- The byte string at a position with a display. -/
def byteString (expected : Text) (maxLength : Nat) (display : ByteDisplay) (v : Value) :
    Except EncodeError (List UInt8) :=
  match v with
  | .buffer _ data => .ok data
  | .view shown => .ok shown.data
  | .text t => (ByteText.parse display maxLength t).mapError .byteText
  | v =>
    match v.items? with
    | some items => byteItems items
    | none => .error (.unexpected expected v)

/-- The greatest count that fits into four bytes. -/
def maxCount : Nat := twoPow 32 - 1

/-- Refuses a count that does not fit into four bytes. -/
def checkCount (n : Nat) : Except EncodeError Unit :=
  if maxCount < n then .error (.tooMany n) else .ok ()

theorem checkCount_eq_ok_iff {n : Nat} : checkCount n = .ok () ↔ n ≤ maxCount := by
  unfold checkCount
  by_cases h : maxCount < n
  · rw [if_pos h]
    exact ⟨nofun, fun hn => absurd h (Nat.not_lt.mpr hn)⟩
  · rw [if_neg h]
    exact ⟨fun _ => Nat.not_lt.mp h, fun _ => rfl⟩

end Encode

end BorshWire
