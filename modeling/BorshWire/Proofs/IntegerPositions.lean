import BorshWire.Proofs.NumericKeys
import BorshWire.Proofs.Reference.Primitives
import BorshWire.Proofs.Simulation.Output

/-!
# Integers at their positions

`Encoder.integers_exact`: at a position of an integer type an integer is written exactly if it is in
the range of the type, in as many bytes as the type has, out of which it comes back; any other integer
is out of range. It does not matter whether it is given as an integer, as a float without a fraction,
or as the text of its digits (`Encode.Gives`).

Text with a fraction or an exponent is no such form: it is read as the nearest double and then taken for
this float. Nothing else is written.
-/

namespace BorshWire

open Numeral (Spelled)

namespace Encode

/-- The value gives this integer: it is the integer itself, a float of the same value, or the text of
its digits with blanks around it, of no more digits than are converted. -/
inductive Gives : Value → Int → Prop where
  | int {n : Int} (digits : n.natAbs < tenPow maxIntegerDigits) : Gives (.int n) n
  | float {x : Double} {n : Int} (finite : x.isFinite = true) (value : x.value = n) :
    Gives (.float x) n
  | text {t : Text} {m : Numeral} {n : Int} (spelled : Spelled t.strip m)
    (integer : m.isInteger = true) (digits : m.whole.length ≤ maxIntegerDigits)
    (value : (n : ℚ) = m.value) : Gives (.text t) n

/-- The encoding writes the integers of a type and refuses what is none. Text with a fraction or an
exponent is encoded as the nearest double is. -/
structure Exact (kind : IntKind) (encode : Value → Except EncodeError (List UInt8)) : Prop where
  inRange : ∀ {v n}, Gives v n → kind.Holds n →
    ∃ own, encode v = .ok own ∧ own.length = kind.bits / 8 ∧ kind.ofBytes own = n
  beyond : ∀ {v n}, Gives v n → ¬kind.Holds n → RefusedWith (encode v) .outOfRange
  rounded : ∀ {t m}, Spelled t.strip m → m.isInteger = false →
    encode (.text t) = encode (.float m.toDouble) ∧
      (m.toDouble.isFinite = true → m.toDouble.IsNearest m.value)
  broken : ∀ {x : Double}, (¬∃ n : Int, x.isFinite = true ∧ x.value = n) →
    RefusedWith (encode (.float x)) .outOfRange
  bool : ∀ b, RefusedWith (encode (.bool b)) .invalidType
  word : ∀ {t}, (¬∃ m, Spelled t.strip m) → RefusedWith (encode (.text t)) .invalidType
  only : ∀ {v own}, encode v = .ok own → Gives v (kind.ofBytes own) ∨
    ∃ t m, v = .text t ∧ Spelled t.strip m ∧ m.isInteger = false ∧
      Gives (.float m.toDouble) (kind.ofBytes own)

/-! ## Numbers at integer positions -/

section

variable {kind : IntKind} {v number : Value} {n : Int}

theorem Gives.of_lt (h : n.natAbs < tenPow 39) : Gives (.int n) n :=
  .int (Nat.lt_of_lt_of_le h (tenPow_le (Nat.le_of_ble_eq_true rfl)))

theorem Gives.exists_number (h : Gives v n) (kind : IntKind) :
    ∃ number, integerValue kind v = .ok number ∧ Write.integral? number = some n := by
  cases h with
  | int _ => exact ⟨_, rfl, rfl⟩
  | float finite value => exact ⟨_, rfl, Double.toInt?_of_value finite value⟩
  | @text t m _ spelled integer digits value =>
    have hnumber := numberOfText?_of_isInteger spelled integer
    rw [if_neg (Nat.not_lt.mpr digits)] at hnumber
    have hn : m.toInt = n := Int.cast_injective ((Numeral.cast_toInt integer).trans value.symm)
    exact ⟨.int m.toInt, by rw [integerValue, hnumber], congrArg some hn⟩

/-- An integer of the type is only found in what gives it, and in text that is read as a float. -/
theorem gives_of_integerValue (h : integerValue kind v = .ok number)
    (hn : Write.integral? number = some n) (hholds : kind.Holds n) :
    Gives v n ∨ ∃ t m, v = .text t ∧ Spelled t.strip m ∧ m.isInteger = false ∧
      Gives (.float m.toDouble) n := by
  have hfloat : ∀ {x : Double}, Write.integral? (.float x) = some n → Gives (.float x) n :=
    fun hx =>
      have ⟨finite, value⟩ := Double.value_of_toInt? hx
      .float finite value
  cases v with
  | int _ =>
    obtain rfl := Except.ok.inj h
    obtain rfl := Option.some.inj hn
    exact .inl (.of_lt (IntKind.natAbs_lt_of_holds hholds))
  | float x =>
    obtain rfl := Except.ok.inj h
    exact .inl (hfloat hn)
  | text t =>
    simp only [integerValue] at h
    split at h
    · rename_i hnumber
      obtain rfl := Except.ok.inj h
      obtain ⟨m, hspelled, ⟨hinteger, hdigits, rfl⟩ | ⟨hfraction, rfl⟩⟩ :=
        exists_numeral_of_numberOfText? hnumber
      · obtain rfl := Option.some.inj hn
        exact .inl (.text hspelled hinteger hdigits (Numeral.cast_toInt hinteger))
      · exact .inr ⟨t, m, rfl, hspelled, hfraction, hfloat hn⟩
    · cases h
  | _ => cases h

/-! ## Written and refused integers -/

theorem result_integer_of_holds (hn : Write.integral? number = some n) (h : kind.Holds n) :
    (written (Write.integer kind number)).result = .ok (kind.range.bytes n) :=
  Output.result_eq_ok_iff_yields.mpr (written_yields_iff.mpr (Write.integer_yields_iff.mpr
    ⟨n, hn, IntKind.contains_of_holds h, rfl⟩))

theorem refusedWith_integer (h : ∀ n, Write.integral? number = some n → ¬kind.Holds n) :
    RefusedWith (written (Write.integer kind number)).result .outOfRange := by
  have hfail : Write.integer kind number = Output.fail (.outOfRange kind.name number) := by
    unfold Write.integer
    split
    · rename_i n hn
      exact if_neg fun hc => h n hn (IntKind.contains_iff_holds.mp hc)
    · rfl
  rw [hfail]
  exact ⟨_, rfl, rfl⟩

theorem result_primitive_integer {config : Config} {display : IntegerDisplay}
    (h : integerValue kind v = .ok number) :
    (primitive config (.integer kind display) v).result =
      (written (Write.integer kind number)).result := by
  rw [primitive, h]
  rfl

theorem refusedWith_primitive_integer {config : Config} {display : IntegerDisplay} {err : EncodeError}
    {errorKind : ErrorKind} (h : integerValue kind v = .error err)
    (hkind : err.kind? = some errorKind) :
    RefusedWith (primitive config (.integer kind display) v).result errorKind := by
  rw [primitive, h]
  exact ⟨err, rfl, hkind⟩

end

theorem exact_primitive (config : Config) (kind : IntKind) (display : IntegerDisplay) :
    Exact kind fun v => (primitive config (.integer kind display) v).result where
  inRange {v n} hgives hholds := by
    obtain ⟨number, hnumber, hn⟩ := hgives.exists_number kind
    refine ⟨kind.range.bytes n, ?_, IntRange.length_bytes _ _,
      IntKind.ofBytes_bytes (IntKind.contains_of_holds hholds)⟩
    rw [result_primitive_integer hnumber, result_integer_of_holds hn hholds]
  beyond {v n} hgives hbeyond := by
    obtain ⟨number, hnumber, hn⟩ := hgives.exists_number kind
    rw [result_primitive_integer hnumber]
    refine refusedWith_integer fun m hm => ?_
    rwa [← Option.some.inj (hn.symm.trans hm)]
  rounded hspelled hfloat := by
    refine ⟨?_, Numeral.isNearest_toDouble⟩
    rw [result_primitive_integer (integerValue_of_spelled hspelled hfloat kind)]
    rfl
  broken hbroken :=
    refusedWith_integer fun n hn => absurd ⟨n, Double.value_of_toInt? hn⟩ hbroken
  bool b := ⟨_, rfl, rfl⟩
  word {t} hword := by
    have herror : integerValue kind (.text t) = .error (.unexpected kind.name (.text t)) := by
      cases hnumber : numberOfText? t with
      | none => rw [integerValue, hnumber]
      | some number =>
        obtain ⟨m, hspelled, _⟩ := exists_numeral_of_numberOfText? hnumber
        exact absurd ⟨m, hspelled⟩ hword
    exact refusedWith_primitive_integer herror rfl
  only {v own} hown := by
    obtain ⟨number, hnumber, hwritten⟩ :=
      Output.yields_ofExcept_bind_iff.mp (Output.result_eq_ok_iff_yields.mp hown)
    obtain ⟨n, hn, hc, rfl⟩ := Write.integer_yields_iff.mp (written_yields_iff.mp hwritten)
    rw [IntKind.ofBytes_bytes hc]
    exact gives_of_integerValue hnumber hn (IntKind.contains_iff_holds.mp hc)

end Encode

namespace Encoder

open Encode (Exact Gives RefusedWith visit)

/-- Integer positions are exact, at any depth within the limit and encoded against an entry of the type
table. -/
theorem integers_exact {e : Encoder} {kind : IntKind} {display : IntegerDisplay} :
    (∀ levels link, Exact kind fun v =>
      (visit e (levels + 1) (.primitive (.integer kind display)) link v).result) ∧
    ∀ j : Nat, e.schema.types[j]? = some (.primitive (.integer kind display)) →
      Exact kind (e.encode (.int j)) ∧
        ∀ stack : Stack, 0 < stack.levels → Exact kind (e.run stack (.int j)) := by
  have hexact := Encode.exact_primitive e.config kind display
  refine ⟨fun levels link => hexact, fun j hj => ?_⟩
  have hwithin : ∀ levels, 0 < levels → Exact kind (e.encodeWithin levels (.int j)) := by
    intro levels hlevels
    obtain ⟨levels, rfl⟩ := Nat.exists_eq_add_of_le' hlevels
    rw [funext (encodeWithin_byIndex hj (levels + 1))]
    exact hexact
  exact ⟨hwithin _ (Nat.succ_pos _), fun stack hstack =>
    hwithin _ (Nat.lt_min.mpr ⟨Nat.succ_pos _, hstack⟩)⟩

/-- A signed byte. -/
def shift : Encoder :=
  ⟨.build [.primitive (plainInteger ⟨true, .w8⟩)] [0] [⟨"", []⟩] none [] [], .default⟩

theorem shift_exact :
    Gives (.text " -0128\n") (-128) ∧
      (∃ own, shift.encode (.int 0) (.text " -0128\n") = .ok own ∧ own.length = 1 ∧
        IntKind.ofBytes ⟨true, .w8⟩ own = -128) ∧
      RefusedWith (shift.encode (.int 0) (.int 128)) .outOfRange ∧
      shift.encode (.int 0) (.text "12.7e1") =
        shift.encode (.int 0) (.float (Numeral.toDouble ⟨false, "12", some "7", some 1⟩)) ∧
      RefusedWith (shift.encode (.int 0) (.float .nan)) .outOfRange ∧
      RefusedWith (shift.run ⟨1, 1⟩ (.int 0) (.bool true)) .invalidType ∧
      RefusedWith (shift.run ⟨1, 1⟩ (.int 0) (.text "0x7f")) .invalidType := by
  obtain ⟨hencode, hroom⟩ := (integers_exact (e := shift)).2 0 rfl
  have hrun := hroom ⟨1, 1⟩ Nat.one_pos
  have hgives : Gives (.text " -0128\n") (-128) := by
    have hspelled : Spelled (Text.strip " -0128\n") ⟨true, "0128", none, none⟩ :=
      Numeral.spelled_of_read? rfl
    have hvalue : Numeral.toInt ⟨true, "0128", none, none⟩ = -128 := rfl
    rw [← hvalue]
    exact .text hspelled rfl (by decide) (Numeral.cast_toInt rfl)
  have hleast : IntKind.Holds ⟨true, .w8⟩ (-128) := by
    unfold IntKind.Holds
    decide
  have hgreatest : ¬IntKind.Holds ⟨true, .w8⟩ 128 := by
    unfold IntKind.Holds
    decide
  have hnan : ¬∃ n : Int, Double.nan.isFinite = true ∧ Double.nan.value = n :=
    fun ⟨_, hfinite, _⟩ => absurd hfinite (by decide)
  have hword : ¬∃ m, Spelled (Text.strip "0x7f") m := by
    rintro ⟨m, hm⟩
    cases Numeral.read?_of_spelled hm
  exact ⟨hgives, hencode.inRange hgives hleast, hencode.beyond (.of_lt (by decide)) hgreatest,
    (hencode.rounded (Numeral.spelled_of_read? rfl) rfl).1, hencode.broken hnan, hrun.bool true,
    hrun.word hword⟩

/-- Text with a fraction gives no integer, but is encoded like the float that it is read as. -/
theorem shift_reads_fractions :
    ¬∀ v own, shift.encode (.int 0) v = .ok own → ∃ n, Gives v n := by
  intro h
  have hencode : shift.encode (.int 0) (.text "1.0") = .ok [1] :=
    eq_ok_of_toOption (by decide +kernel)
  have hread : Numeral.read? (Text.strip "1.0") = some ⟨false, "1", some "0", none⟩ := rfl
  obtain ⟨n, hgives⟩ := h _ _ hencode
  cases hgives with
  | text hspelled hinteger _ _ =>
    obtain rfl := Option.some.inj (hread.symm.trans (Numeral.read?_of_spelled hspelled))
    cases hinteger

end Encoder

end BorshWire
