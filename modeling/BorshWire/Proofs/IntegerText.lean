import BorshWire.Proofs.Bytes.LittleEndian
import BorshWire.Proofs.Entries
import BorshWire.Proofs.Number.Grammar
import BorshWire.Proofs.Number.Numeral
import BorshWire.Proofs.Positions

/-!
# Text at integer positions

`Encoder.denotes_of_encode`: of a value that is encoded every text at an integer position and every
key of a map with integer keys is written as the integer that it is read as (`Encode.ReadAs`). This
is the exact value of digits alone. Text with a fraction or an exponent is read as a double, so it
is the exact value whenever a double holds that (`Encode.Denotes`), but else the value of the
nearest double, which can be an integer where the exact value is none.
-/

namespace BorshWire

open Numeral (Spelled)

namespace Encode

/-! ## Texts as integers -/

/-- An integer is what a text is read as, blanks around it aside: the value of digits alone, if they
are not too many, or that of the nearest double. -/
inductive ReadAs (t : Text) (m : Int) : Prop where
  | exact {n : Numeral} (hspelled : Spelled t.strip n) (hinteger : n.isInteger = true)
    (hdigits : n.whole.length ≤ maxIntegerDigits) (hvalue : (m : ℚ) = n.value)
  | rounded {n : Numeral} {x : Double} (hspelled : Spelled t.strip n)
    (hfloat : n.isInteger = false) (hnearest : x.IsNearest n.value) (hvalue : x.value = m)

/-- A text is read as this integer and no other, and it is the value of the text if that has neither
fraction nor exponent, or if a double has the same value. -/
structure Denotes (t : Text) (m : Int) : Prop where
  readAs : ReadAs t m
  unique : ∀ m', ReadAs t m' → m' = m
  exact : ∀ n, Spelled t.strip n →
    n.isInteger = true ∨ (∃ x : Double, x.isFinite = true ∧ x.value = n.value) → (m : ℚ) = n.value

/-- What a text is read as does not depend on the way. -/
theorem ReadAs.unique {t : Text} {m m' : Int} (h : ReadAs t m) (h' : ReadAs t m') : m = m' := by
  have hcast : (m : ℚ) = m' := by
    cases h with
    | exact hspelled hinteger _ hvalue =>
      cases h' with
      | exact hspelled' _ _ hvalue' =>
        obtain rfl := hspelled.unique hspelled'
        exact hvalue.trans hvalue'.symm
      | rounded hspelled' hfloat _ _ =>
        obtain rfl := hspelled.unique hspelled'
        rw [hinteger] at hfloat
        cases hfloat
    | rounded hspelled hfloat hnearest hvalue =>
      cases h' with
      | exact hspelled' hinteger _ _ =>
        obtain rfl := hspelled.unique hspelled'
        rw [hinteger] at hfloat
        cases hfloat
      | rounded hspelled' _ hnearest' hvalue' =>
        obtain rfl := hspelled.unique hspelled'
        rw [← hvalue, ← hvalue', hnearest.value_eq hnearest']
  exact Int.cast_injective hcast

/-- A double that holds the value of a text is the one that the text is read as. -/
theorem ReadAs.denotes {t : Text} {m : Int} (h : ReadAs t m) : Denotes t m where
  readAs := h
  unique _ h' := h'.unique h
  exact n hn hheld := by
    cases h with
    | exact hspelled _ _ hvalue =>
      obtain rfl := hn.unique hspelled
      exact hvalue
    | rounded hspelled hfloat hnearest hvalue =>
      obtain rfl := hn.unique hspelled
      rcases hheld with hinteger | ⟨x, hx, hexact⟩
      · rw [hinteger] at hfloat
        cases hfloat
      · have hown := Double.isNearest_value hx
        rw [hexact] at hown
        rw [← hvalue, hnearest.value_eq hown, hexact]

theorem numberOfText?_of_isInteger {t : Text} {n : Numeral} (hn : Spelled t.strip n)
    (hinteger : n.isInteger = true) :
    numberOfText? t =
      if maxIntegerDigits < n.whole.length then none else some (.int n.toInt) := by
  rw [numberOfText?, Numeral.read?_of_spelled hn, Option.bind_some, numberOf?, if_pos hinteger]

theorem numberOfText?_of_not_isInteger {t : Text} {n : Numeral} (hn : Spelled t.strip n)
    (hfloat : n.isInteger = false) : numberOfText? t = some (.float n.toDouble) := by
  rw [numberOfText?, Numeral.read?_of_spelled hn, Option.bind_some, numberOf?,
    if_neg (Bool.eq_false_iff.mp hfloat)]

theorem integerValue_of_spelled {t : Text} {m : Numeral} (hspelled : Spelled t.strip m)
    (hfloat : m.isInteger = false) (kind : IntKind) :
    integerValue kind (.text t) = .ok (.float m.toDouble) := by
  rw [integerValue, numberOfText?_of_not_isInteger hspelled hfloat]

/-- The number of a text is that of the numeral between its blanks. -/
theorem exists_numeral_of_numberOfText? {t : Text} {number : Value}
    (h : numberOfText? t = some number) :
    ∃ m, Spelled t.strip m ∧
      (m.isInteger = true ∧ m.whole.length ≤ maxIntegerDigits ∧ number = .int m.toInt ∨
        m.isInteger = false ∧ number = .float m.toDouble) := by
  obtain ⟨m, hread, hm⟩ := Option.bind_eq_some_iff.mp h
  refine ⟨m, Numeral.spelled_of_read? hread, ?_⟩
  unfold numberOf? at hm
  split at hm
  · rename_i hinteger
    split at hm
    · cases hm
    · rename_i hdigits
      exact .inl ⟨hinteger, Nat.not_lt.mp hdigits, (Option.some.inj hm).symm⟩
  · rename_i hfloat
    exact .inr ⟨Bool.eq_false_iff.mpr hfloat, (Option.some.inj hm).symm⟩

/-- The number of a text, if it is written as an integer, is what the text is read as. -/
theorem readAs_of_numberOfText? {t : Text} {v : Value} (h : numberOfText? t = some v) {m : Int}
    (hm : Write.integral? v = some m) : ReadAs t m := by
  obtain ⟨n, hspelled, ⟨hinteger, hdigits, rfl⟩ | ⟨hfloat, rfl⟩⟩ :=
    exists_numeral_of_numberOfText? h
  · obtain rfl := Option.some.inj hm
    exact .exact hspelled hinteger hdigits (Numeral.cast_toInt hinteger)
  · obtain ⟨hfinite, hvalue⟩ := Double.value_of_toInt? hm
    exact .rounded hspelled hfloat (Numeral.isNearest_toDouble hfinite) hvalue

/-! ## Written integers -/

theorem ofBytes_of_yields {e : Encoder} {levels : Nat} {kind : IntKind} {display : IntegerDisplay}
    {link : Link} {v : Value} {own : List UInt8}
    (h : (visit e levels (.primitive (.integer kind display)) link v).Yields own ()) :
    ∃ n, integerValue kind v = .ok n ∧ Write.integral? n = some (kind.ofBytes own) := by
  cases levels with
  | zero => exact absurd h Output.not_yields_fail
  | succ levels =>
    obtain ⟨n, hn, hwritten⟩ := Output.yields_ofExcept_bind_iff.mp h
    obtain ⟨m, hm, hrange, rfl⟩ := Write.integer_yields_iff.mp (written_yields_iff.mp hwritten)
    exact ⟨n, hn, by rw [IntKind.ofBytes_bytes hrange, hm]⟩

theorem readAs_of_yields {e : Encoder} {levels : Nat} {kind : IntKind} {display : IntegerDisplay}
    {link : Link} {t : Text} {own : List UInt8}
    (h : (visit e levels (.primitive (.integer kind display)) link (.text t)).Yields own ()) :
    ReadAs t (kind.ofBytes own) := by
  obtain ⟨n, hn, hm⟩ := ofBytes_of_yields h
  simp only [integerValue] at hn
  split at hn
  · rename_i number hnumber
    obtain rfl := Except.ok.inj hn
    exact readAs_of_numberOfText? hnumber hm
  · cases hn

/-- The bytes of a key of an integer type give back what its text is read as. -/
theorem readAs_of_key_yields {e : Encoder} {levels : Nat} {kind : IntKind} {display : IntegerDisplay}
    {link : Link} {t : Text} {k : Value} {own : List UInt8}
    (hk : keyValue (.primitive (.integer kind display)) t = .ok k)
    (h : (visit e levels (.primitive (.integer kind display)) link k).Yields own ()) :
    ReadAs t (kind.ofBytes own) := by
  obtain ⟨n, hn, hm⟩ := ofBytes_of_yields h
  simp only [keyValue, isNumeric, if_true] at hk
  split at hk
  · rename_i number hnumber
    obtain rfl := Except.ok.inj hk
    have hsame : n = number := by
      rcases number_of_numberOfText? hnumber with ⟨i, rfl⟩ | ⟨x, rfl⟩ <;>
        exact (Except.ok.inj hn).symm
    rw [hsame] at hm
    exact readAs_of_numberOfText? hnumber hm
  · cases hk

end Encode

namespace Encoder

open Encode (Denotes Stands Writes keyText keyValue)

/-- Of a value that is encoded every text at an integer position, and every key of a map whose keys
are of an integer type, is written in bytes that give back the integer that the text denotes: the
exact value of text without fraction and exponent and of text whose value a double holds, and else
the value of the nearest double. So a text is refused if that is no integer. -/
theorem denotes_of_encode {e : Encoder} {index v : Value} {bytes : List UInt8}
    (h : e.encode index v = .ok bytes ∨ ∃ stack, e.run stack index v = .ok bytes) :
    (∀ {kind : IntKind} {display : IntegerDisplay} {link : Link} {t : Text},
      Stands e.schema index v (.primitive (.integer kind display)) link (.text t) →
      ∃ own, Writes e bytes (.primitive (.integer kind display)) link (.text t) own ∧
        Denotes t (kind.ofBytes own)) ∧
    ∀ {kind : IntKind} {display : IntegerDisplay} {key value link : Link} {w : Value} {m : Mapping}
      {entry : Key × Value}, Stands e.schema index v (.map key value) link w →
      w.mapping? = some m → entry ∈ m.entries →
      e.schema.resolve key = .ok (.primitive (.integer kind display)) →
      ∃ k own, keyValue (.primitive (.integer kind display)) (keyText entry.1) = .ok k ∧
        Writes e bytes (.primitive (.integer kind display)) key k own ∧
        Denotes (keyText entry.1) (kind.ofBytes own) := by
  have hwrites : ∀ {type : Ty} {link : Link} {w : Value}, Stands e.schema index v type link w →
      ∃ own, Writes e bytes type link w own := by
    intro type link w hstands
    rcases h with h | ⟨stack, h⟩
    · exact writes_of_stands h hstands
    · exact writes_of_stands h hstands
  refine ⟨fun hstands => ?_, fun hstands hm he hr => ?_⟩
  · obtain ⟨own, hown⟩ := hwrites hstands
    obtain ⟨levels, hy⟩ := hown.written
    exact ⟨own, hown, (Encode.readAs_of_yields hy).denotes⟩
  · obtain ⟨whole, hmap⟩ := hwrites hstands
    obtain ⟨levels, hy⟩ := hmap.written
    obtain ⟨k, hk⟩ := Encode.exists_keyValue hy hm he hr
    obtain ⟨own, hown⟩ := hmap.below (.key hm he hr hk) hr
    obtain ⟨levels', hy'⟩ := hown.written
    exact ⟨k, own, hk, hown, (Encode.readAs_of_key_yields hk hy').denotes⟩

/-- An integer type without hints on the display. -/
def plainInteger (kind : IntKind) : Primitive := .integer kind ⟨.decimal, none, none, none⟩

/-- Amounts, and balances of accounts by number. -/
def ledger : Encoder :=
  ⟨.build
      [.primitive (plainInteger ⟨false, .w64⟩),
        .map (.byIndex 0) (.immediate (plainInteger ⟨false, .w128⟩))]
      [0, 1] [⟨"", []⟩, ⟨"", []⟩] none [] [], .default⟩

/-- The entry of account 75 with the greatest balance. -/
def account : Key × Value := (.text "7.5e1", .text " +340282366920938463463374607431768211455")

/-- The greatest balance. -/
def greatestBalance : Value := .map [account]

theorem eq_ok_of_toOption {ε α : Type} {r : Except ε α} {a : α} (h : r.toOption = some a) :
    r = .ok a := by
  cases r with
  | error e => cases h
  | ok b => exact congrArg Except.ok (Option.some.inj h)

theorem encode_greatestBalance :
    ledger.encode (.int 1) greatestBalance =
      .ok (littleEndian 4 1 ++ littleEndian 8 75 ++ littleEndian 16 (twoPow 128 - 1)) := by
  apply eq_ok_of_toOption
  show (Encode.map ledger.schema (Encode.visit ledger 256) (.byIndex 0) _
    greatestBalance).result.toOption = _
  unfold Encode.map greatestBalance account
  simp only [Value.mapping?, Encode.sortedEntries_singleton]
  decide +kernel

theorem denotes_greatestBalance :
    ∃ bytes, ledger.encode (.int 1) greatestBalance = .ok bytes ∧
      (∃ own, Writes ledger bytes (.primitive (plainInteger ⟨false, .w128⟩))
          (.immediate (plainInteger ⟨false, .w128⟩))
          (.text " +340282366920938463463374607431768211455") own ∧
        Denotes " +340282366920938463463374607431768211455" (IntKind.ofBytes ⟨false, .w128⟩ own)) ∧
      ∃ k own, keyValue (.primitive (plainInteger ⟨false, .w64⟩)) "7.5e1" = .ok k ∧
        Writes ledger bytes (.primitive (plainInteger ⟨false, .w64⟩)) (.byIndex 0) k own ∧
        Denotes "7.5e1" (IntKind.ofBytes ⟨false, .w64⟩ own) := by
  obtain ⟨hvalue, hkey⟩ := denotes_of_encode (.inl encode_greatestBalance)
  have hroot : Stands ledger.schema (.int 1) greatestBalance
      (.map (.byIndex 0) (.immediate (plainInteger ⟨false, .w128⟩))) (.byIndex 1) greatestBalance :=
    .root rfl rfl
  have hentry : account ∈ [account] := List.mem_singleton_self account
  have hbalance := hroot.down (.value rfl hentry) rfl
  exact ⟨_, encode_greatestBalance, hvalue hbalance, hkey hroot rfl hentry rfl⟩

/-- An integer between two doubles. -/
def between : Numeral := ⟨false, "9007199254740993", some "0", none⟩

/-- A number next to one. -/
def nextToOne : Numeral := ⟨false, "1", some "00000000000000000001", none⟩

theorem spelled_between : Spelled (Text.strip "9007199254740993.0") between :=
  Numeral.spelled_of_read? rfl

theorem spelled_nextToOne : Spelled (Text.strip "1.00000000000000000001") nextToOne :=
  Numeral.spelled_of_read? rfl

theorem value_between : between.value = 9007199254740993 := by
  have hcoefficient : between.coefficient = 90071992547409930 := rfl
  have hscale : between.scale = -1 := rfl
  have hnegative : between.negative = false := rfl
  rw [Numeral.value, hcoefficient, hscale, hnegative, Double.signed]
  norm_num

theorem ne_value_nextToOne (m : Int) : (m : ℚ) ≠ nextToOne.value := by
  intro hm
  have hcoefficient : nextToOne.coefficient = 100000000000000000001 := rfl
  have hscale : nextToOne.scale = -20 := rfl
  have hnegative : nextToOne.negative = false := rfl
  rw [Numeral.value, hcoefficient, hscale, hnegative, Double.signed] at hm
  have hwhole : (m : ℚ) * 10 ^ 20 = 100000000000000000001 := by
    rw [hm]
    norm_num
  have hwhole' : m * 10 ^ 20 = 100000000000000000001 := by exact_mod_cast hwhole
  omega

theorem toInt?_between_nextToOne :
    between.toDouble.toInt? = some 9007199254740992 ∧ nextToOne.toDouble.toInt? = some 1 := by
  decide +kernel

theorem encode_amount {t : Text} {n : Numeral} {m : Int} (hn : Spelled t.strip n)
    (hfloat : n.isInteger = false) (hm : n.toDouble.toInt? = some m)
    (hrange : (IntKind.range ⟨false, .w64⟩).contains m = true) :
    ledger.encode (.int 0) (.text t) = .ok ((IntKind.range ⟨false, .w64⟩).bytes m) := by
  show (Encode.primitive ledger.config (plainInteger ⟨false, .w64⟩) (.text t)).result = _
  rw [Output.result_eq_ok_iff_yields]
  exact Output.yields_ofExcept_bind_iff.mpr ⟨_, Encode.integerValue_of_spelled hn hfloat _,
    Encode.written_yields_iff.mpr (Write.integer_yields_iff.mpr ⟨m, hm, hrange, rfl⟩)⟩

/-- An integer between two doubles is written as another one, and a number that is no integer is
written as one, if the text of either has a fraction. -/
theorem ledger_rounds :
    (∃ n bytes, Spelled (Text.strip "9007199254740993.0") n ∧ n.value = 9007199254740993 ∧
      ledger.encode (.int 0) (.text "9007199254740993.0") = .ok bytes ∧
      IntKind.ofBytes ⟨false, .w64⟩ bytes = 9007199254740992) ∧
    ∃ n bytes, Spelled (Text.strip "1.00000000000000000001") n ∧ (∀ m : Int, (m : ℚ) ≠ n.value) ∧
      ledger.encode (.int 0) (.text "1.00000000000000000001") = .ok bytes :=
  ⟨⟨between, _, spelled_between, value_between,
      encode_amount spelled_between rfl toInt?_between_nextToOne.1 (by decide), rfl⟩,
    nextToOne, _, spelled_nextToOne, ne_value_nextToOne,
      encode_amount spelled_nextToOne rfl toInt?_between_nextToOne.2 (by decide)⟩

end Encoder

end BorshWire
