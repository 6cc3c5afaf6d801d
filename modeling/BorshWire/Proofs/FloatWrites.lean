import BorshWire.Encode.Error
import BorshWire.Proofs.Number.Integral
import BorshWire.Wire.Writer

/-!
# Floats and integers in the operations on floats

`Writer.numbers_narrow`: in double precision an integer is written as the double nearest to it. In
single precision this holds below `2 ^ 128 - 2 ^ 103` only: from there on the double is written as
infinity, and the integer is refused with an error that is not one of range, although it passes the
same test. All other numbers are written in full or refused as out of range; but the refusal spells the
number out, so that an integer of more digits than are converted is refused without a report.
-/

namespace BorshWire

namespace Write

/-! ## The two steps on numbers with a double -/

theorem isInfiniteSingle_toSingle_iff {x : Double} (h : x.isFinite = true) :
    isInfiniteSingle x.toSingle = true ↔ (2 : ℚ) ^ 128 - 2 ^ 103 ≤ |x.value| :=
  decide_eq_true_iff.trans (Double.singleMagnitude_toSingle_eq_infinity_iff h)

theorem singleBytes_of_infinite {x : Double} (h : x.isFinite = true)
    (hx : isInfiniteSingle x.toSingle = true) :
    singleBytes x = [0, 0, 0x80, if x.isNegative then 0xFF else 0x7F] := by
  have hmagnitude : singleMagnitude x.toSingle = BinaryFormat.single.infinity :=
    of_decide_eq_true hx
  rw [Double.singleMagnitude_toSingle h] at hmagnitude
  rw [singleBytes, Double.toNat_toSingle h, hmagnitude]
  cases x.isNegative <;> decide

theorem single_float {x : Double} (h : x.isFinite = true) :
    Write.single (.float x) = Output.emit (singleBytes x) := single_yields_iff.mpr ⟨h, rfl⟩

variable {n : Int} (h : (Double.ofInt n).isFinite = true)

include h

theorem finite?_int : finite? (.int n) = some (Double.ofInt n) := if_pos h

theorem single_int :
    Write.single (.int n) =
      if isInfiniteSingle (Double.ofInt n).toSingle then Output.fail .singleOverflow
      else Write.single (.float (Double.ofInt n)) := by
  rw [Write.single, finite?_int h, single_float h]

theorem double_int : Write.double (.int n) = Write.double (.float (Double.ofInt n)) := by
  rw [Write.double, Write.double, finite?_int h, finite?_float, if_pos h]

end Write

namespace Double

theorem isNegative_ofInt (n : Int) : (ofInt n).isNegative = decide (n < 0) := by
  have hword : BinaryFormat.double.roundRatio n.natAbs 1 < twoPow 63 :=
    Nat.lt_of_le_of_lt (BinaryFormat.double.roundRatio_le_infinity n.natAbs 1) (by decide)
  exact (parts_ofMagnitude (decide (n < 0)) hword).2

theorem isNearest_ofInt {n : Int} (h : (ofInt n).isFinite = true) : IsNearest n (ofInt n) := by
  have hvalue : (n : ℚ) = signed (decide (n < 0)) ((n.natAbs : ℚ) / (1 : Nat)) := by
    rw [Nat.cast_one, div_one, Nat.cast_natAbs]
    unfold signed
    by_cases hneg : n < 0
    · rw [if_pos (decide_eq_true hneg), abs_of_neg hneg, Int.cast_neg, neg_neg]
    · rw [if_neg (by simpa using hneg), abs_of_nonneg (Int.not_lt.mp hneg)]
  rw [hvalue]
  exact isNearest_ofRatio Nat.one_pos h

end Double

namespace Writer

/-! ## Every number -/

/-- What the two operations do with an integer and with the double nearest to it. -/
structure Narrows (w : Writer) (n : Int) (x : Double) : Prop where
  nearest : x.IsNearest n
  double_eq : w.perform (.one .double (.int n)) = w.perform (.one .double (.float x))
  single_eq : |x.value| < 2 ^ 128 - 2 ^ 103 →
    w.perform (.one .single (.int n)) = w.perform (.one .single (.float x))
  int_refused : 2 ^ 128 - 2 ^ 103 ≤ |x.value| →
    w.perform (.one .single (.int n)) = (w, .error .singleOverflow)
  float_infinite : 2 ^ 128 - 2 ^ 103 ≤ |x.value| →
    w.perform (.one .single (.float x)) =
      (⟨w.buffer ++ [0, 0, 0x80, if n < 0 then 0xFF else 0x7F]⟩, .ok ())

/-- A float or a truth value, or an integer that has no double; of an integer only as many digits as
a message can spell. -/
inductive OtherNumber : Value → Prop where
  | float (x : Double) : OtherNumber (.float x)
  | bool (b : Bool) : OtherNumber (.bool b)
  | int {n : Int} (vast : (Double.ofInt n).isFinite = false)
    (digits : n.natAbs < tenPow maxIntegerDigits) : OtherNumber (.int n)

/-- So many bytes are appended, or the value is refused as out of range, which is reported, and the
writer is left as it is. -/
inductive Settles (w : Writer) (m : WriteMethod) (type : Text) (size : Nat) (v : Value) : Prop where
  | appended {bytes : List UInt8} (hlength : bytes.length = size)
    (h : w.perform (.one m v) = (⟨w.buffer ++ bytes⟩, .ok ()))
  | refused {words : Text} (h : w.perform (.one m v) = (w, .error (.outOfRange type v)))
    (hreport : (WriteError.outOfRange type v).report? = some (.outOfRange, words))

/-- The value is refused as out of range, but there is nothing to report. -/
structure Escapes (w : Writer) (m : WriteMethod) (type : Text) (v : Value) : Prop where
  refused : w.perform (.one m v) = (w, .error (.outOfRange type v))
  unreported : (WriteError.outOfRange type v).report? = none

variable (w : Writer)

theorem perform_of_emit {op : WriteOp} {bytes : List UInt8} (h : op.step = Output.emit bytes) :
    w.perform op = (⟨w.buffer ++ bytes⟩, .ok ()) := by
  rw [perform, h]
  rfl

theorem perform_of_fail {op : WriteOp} {err : WriteError} (h : op.step = Output.fail err) :
    w.perform op = (w, .error err) := by
  rw [perform, h]
  exact congrArg (·, _) (congrArg Writer.mk (List.append_nil w.buffer))

theorem narrows_ofInt {n : Int} (h : (Double.ofInt n).isFinite = true) :
    w.Narrows n (Double.ofInt n) where
  nearest := Double.isNearest_ofInt h
  double_eq := by
    have hstep : (WriteOp.one .double (.int n)).step =
        (WriteOp.one .double (.float (Double.ofInt n))).step := Write.double_int h
    rw [perform, perform, hstep]
  single_eq hbelow := by
    have hfinite : ¬Write.isInfiniteSingle (Double.ofInt n).toSingle = true :=
      mt (Write.isInfiniteSingle_toSingle_iff h).mp (not_le.mpr hbelow)
    have hstep : (WriteOp.one .single (.int n)).step =
        (WriteOp.one .single (.float (Double.ofInt n))).step :=
      (Write.single_int h).trans (if_neg hfinite)
    rw [perform, perform, hstep]
  int_refused hbeyond := by
    have hinfinite := (Write.isInfiniteSingle_toSingle_iff h).mpr hbeyond
    exact w.perform_of_fail ((Write.single_int h).trans (if_pos hinfinite))
  float_infinite hbeyond := by
    have hinfinite := (Write.isInfiniteSingle_toSingle_iff h).mpr hbeyond
    have hbytes := Write.singleBytes_of_infinite h hinfinite
    rw [Double.isNegative_ofInt] at hbytes
    simp only [decide_eq_true_eq] at hbytes
    exact w.perform_of_emit ((Write.single_float h).trans (congrArg Output.emit hbytes))

theorem refused_of_none {v : Value} (h : Write.finite? v = none) :
    w.perform (.one .single v) = (w, .error (.outOfRange "f32" v)) ∧
      w.perform (.one .double v) = (w, .error (.outOfRange "f64" v)) := by
  have hsingle : Write.single v = Output.fail (.outOfRange "f32" v) := by rw [Write.single, h]
  have hdouble : Write.double v = Output.fail (.outOfRange "f64" v) := by rw [Write.double, h]
  exact ⟨w.perform_of_fail hsingle, w.perform_of_fail hdouble⟩

theorem report?_outOfRange {type : Text} {v : Value} (h : v.numbers.all Text.spells = true) :
    (WriteError.outOfRange type v).report? =
      some (.outOfRange, (WriteError.outOfRange type v).words) := if_pos h

theorem report?_outOfRange_eq_none {type : Text} {v : Value}
    (h : ¬v.numbers.all Text.spells = true) : (WriteError.outOfRange type v).report? = none := if_neg h

theorem settles_of_none {v : Value} (h : Write.finite? v = none)
    (hspells : v.numbers.all Text.spells = true) :
    w.Settles .single "f32" 4 v ∧ w.Settles .double "f64" 8 v := by
  obtain ⟨hsingle, hdouble⟩ := w.refused_of_none h
  exact ⟨.refused hsingle (report?_outOfRange hspells),
    .refused hdouble (report?_outOfRange hspells)⟩

/-- An integer of more digits than are converted has no finite double, nor words to be refused in. -/
theorem escapes_of_vast {n : Int} (h : tenPow maxIntegerDigits ≤ n.natAbs) :
    w.Escapes .single "f32" (.int n) ∧ w.Escapes .double "f64" (.int n) := by
  have hvast : tenPow 400 ≤ n.natAbs :=
    Nat.le_trans (tenPow_le (Nat.le_of_ble_eq_true rfl)) h
  have hnone : Write.finite? (.int n) = none :=
    if_neg (Bool.eq_false_iff.mp (Numeral.isFinite_ofInt_of_vast hvast))
  have hspells : ¬(Value.int n).numbers.all Text.spells = true := by
    rw [Value.numbers, List.all_cons, Text.spells_eq_false_iff.mpr h]
    exact Bool.false_ne_true
  obtain ⟨hsingle, hdouble⟩ := w.refused_of_none hnone
  exact ⟨⟨hsingle, report?_outOfRange_eq_none hspells⟩, ⟨hdouble, report?_outOfRange_eq_none hspells⟩⟩

theorem perform_float {x : Double} (h : x.isFinite = true) :
    w.perform (.one .single (.float x)) = (⟨w.buffer ++ Write.singleBytes x⟩, .ok ()) ∧
      w.perform (.one .double (.float x)) =
        (⟨w.buffer ++ littleEndian 8 x.bits.toNat⟩, .ok ()) := by
  have hdouble : Write.double (.float x) = Output.emit (littleEndian 8 x.bits.toNat) :=
    Write.double_yields_iff.mpr ⟨h, rfl⟩
  exact ⟨w.perform_of_emit (Write.single_float h), w.perform_of_emit hdouble⟩

/-- An integer that has a finite double is written as the nearest one, in double precision always and
in single precision below `2 ^ 128 - 2 ^ 103`. From there on the double becomes infinity of the same
sign, and the integer fails without a byte. Every other number has all of its bytes appended or is
reported as out of range, but for integers of more digits than are converted, whose refusal is not
reported; the finite doubles are written. -/
theorem numbers_narrow (w : Writer) :
    (∀ n : Int, (Double.ofInt n).isFinite = true → w.Narrows n (Double.ofInt n)) ∧
      (∀ v, OtherNumber v → w.Settles .single "f32" 4 v ∧ w.Settles .double "f64" 8 v) ∧
      (∀ n : Int, tenPow maxIntegerDigits ≤ n.natAbs →
        w.Escapes .single "f32" (.int n) ∧ w.Escapes .double "f64" (.int n)) ∧
      ∀ x : Double, x.isFinite = true →
        w.perform (.one .single (.float x)) = (⟨w.buffer ++ Write.singleBytes x⟩, .ok ()) ∧
          w.perform (.one .double (.float x)) =
            (⟨w.buffer ++ littleEndian 8 x.bits.toNat⟩, .ok ()) := by
  refine ⟨fun n h => w.narrows_ofInt h, fun v hv => ?_, fun n h => w.escapes_of_vast h,
    fun x h => w.perform_float h⟩
  cases hv with
  | float x =>
    by_cases hx : x.isFinite = true
    · obtain ⟨hsingle, hdouble⟩ := w.perform_float hx
      exact ⟨.appended (length_littleEndian 4 _) hsingle, .appended (length_littleEndian 8 _) hdouble⟩
    · exact w.settles_of_none (if_neg hx) rfl
  | bool b => exact w.settles_of_none rfl rfl
  | int hvast hdigits =>
    have hspells : Text.spells _ = true := Text.spells_of_lt maxIntegerDigits hdigits (Nat.le_refl _)
    refine w.settles_of_none (if_neg (Bool.eq_false_iff.mp hvast)) ?_
    rw [Value.numbers, List.all_cons, hspells]
    rfl

/-- The first integer between two singles, and the first power of two without a double. -/
theorem numbers_narrow_empty :
    ((Double.ofInt 16777217).isFinite = true ∧
      |(Double.ofInt 16777217).value| < 2 ^ 128 - 2 ^ 103 ∧
      Writer.empty.perform (.one .single (.int 16777217)) = (⟨[0, 0, 0x80, 0x4B]⟩, .ok ())) ∧
    OtherNumber (.int (twoPow 1024)) ∧
      Writer.empty.Settles .single "f32" 4 (.int (twoPow 1024)) := by
  have hfinite : (Double.ofInt 16777217).isFinite = true := by decide +kernel
  have hbelow : |(Double.ofInt 16777217).value| < 2 ^ 128 - 2 ^ 103 := by
    rw [← not_le, ← Write.isInfiniteSingle_toSingle_iff hfinite]
    decide +kernel
  have hother : OtherNumber (.int (twoPow 1024)) := .int (by decide +kernel) (by decide +kernel)
  refine ⟨⟨hfinite, hbelow, ?_⟩, hother, ((numbers_narrow .empty).2.1 _ hother).1⟩
  have hbytes : Write.singleBytes (Double.ofInt 16777217) = [0, 0, 0x80, 0x4B] := by decide +kernel
  rw [((numbers_narrow .empty).1 _ hfinite).single_eq hbelow,
    ((numbers_narrow .empty).2.2.2 _ hfinite).1, hbytes]
  rfl

/-- The least power of two that overflows: the integer is refused, and its double is infinity. -/
theorem perform_single_overflow :
    (Double.ofInt (2 ^ 128)).isFinite = true ∧ (Double.ofInt (2 ^ 128)).value = 2 ^ 128 ∧
      Writer.empty.perform (.one .single (.int (2 ^ 128))) = (.empty, .error .singleOverflow) ∧
      Writer.empty.perform (.one .single (.float (Double.ofInt (2 ^ 128)))) =
        (⟨[0, 0, 0x80, 0x7F]⟩, .ok ()) := by
  have hfinite : (Double.ofInt (2 ^ 128)).isFinite = true := by decide +kernel
  have hvalue : (Double.ofInt (2 ^ 128)).value = 2 ^ 128 := by
    have hint : (Double.ofInt (2 ^ 128)).toInt? = some (2 ^ 128) := by decide +kernel
    exact_mod_cast (Double.value_of_toInt? hint).2
  have hbeyond : (2 : ℚ) ^ 128 - 2 ^ 103 ≤ |(Double.ofInt (2 ^ 128)).value| := by
    rw [hvalue]
    norm_num
  have hnarrows := Writer.empty.narrows_ofInt hfinite
  exact ⟨hfinite, hvalue, hnarrows.int_refused hbeyond, hnarrows.float_infinite hbeyond⟩

end Writer

end BorshWire
