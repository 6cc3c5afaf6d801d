import BorshWire.Proofs.Context
import BorshWire.Proofs.IntegerText
import BorshWire.Proofs.KeyedMaps
import BorshWire.Proofs.Number.Integral
import BorshWire.Proofs.Text.Decimal

/-!
# Numbers as keys

The text of a key of a numeric type becomes a number before its type is looked at, while a text as a
value is read by the type itself. `Encoder.numericKey_agrees`: both ways lead to the same bytes, and a
key is refused exactly if the string is; at integer types always, at float types but for text without
fraction and exponent that an integer does not stand for. This is a zero with a minus sign, which the
integer loses, and text of more digits than are converted. Information separators around a number are
another matter (`keyed_of_separated`).
-/

namespace BorshWire

open Numeral (Spelled)

/-- A refused key is refused like a string: with the same kind, or as no number where the string is
none of the type. -/
def EncodeError.LikeString (e e' : EncodeError) : Prop :=
  e.SameKind e' ∨ e.kind? = some .json ∧ e'.kind? = some .invalidType

namespace Encode

/-! ## Keys as numbers -/

theorem keyed_of_isNumeric {type : Ty} (h : isNumeric type = true) (next : Visit) (key : Link)
    (t : Text) :
    keyed next type key t = match numberOfText? t with
      | some k => next type key k
      | none => Output.fail (.notNumberKey t) := by
  rw [keyed, keyValue, if_pos h]
  cases numberOfText? t <;> rfl

/-! ## Texts at float types -/

/-- A text that is the same number as a key and as a string at a float type: if it is without fraction
and exponent, it is no zero with a minus sign and has no more digits than are converted. Around a
number there is white space only. -/
structure SameFloat (t : Text) : Prop where
  trimmed : ∀ n, Spelled t.strip n → t.strip = t.trim CodePoint.isWhiteSpace
  sign : ∀ n, Spelled t.strip n → n.isInteger = true → n.coefficient = 0 → n.negative = false
  digits : ∀ n, Spelled t.strip n → n.isInteger = true → n.whole.length ≤ maxIntegerDigits

theorem nearestDouble?_of_spelled {t : Text} {n : Numeral} (hn : Spelled t.strip n)
    (htrim : t.strip = t.trim CodePoint.isWhiteSpace) :
    nearestDouble? (.text t) = some n.toDouble := by
  rw [nearestDouble?, ← htrim, Numeral.read?_of_spelled hn, Option.map_some]

theorem strip_of_nearestDouble? {t : Text} {x : Double} (h : nearestDouble? (.text t) = some x) :
    t.strip = t.trim CodePoint.isWhiteSpace := by
  obtain ⟨n, hn, _⟩ := Option.map_eq_some_iff.mp h
  exact Numeral.strip_of_spelled (Numeral.spelled_of_read? hn)

/-- Such a text has the same double on both ways, or none. -/
theorem SameFloat.nearestDouble?_eq {t : Text} (h : SameFloat t) :
    numberOfText? t = none ∧ nearestDouble? (.text t) = none ∨
      ∃ k, numberOfText? t = some k ∧ nearestDouble? k = nearestDouble? (.text t) := by
  cases hread : Numeral.read? t.strip with
  | none =>
    refine .inl ⟨by rw [numberOfText?, hread, Option.bind_none], ?_⟩
    by_contra hsome
    obtain ⟨x, hx⟩ := Option.ne_none_iff_exists'.mp hsome
    rw [nearestDouble?, ← strip_of_nearestDouble? hx, hread] at hx
    cases hx
  | some n =>
    have hn := Numeral.spelled_of_read? hread
    rw [nearestDouble?_of_spelled hn (h.trimmed n hn)]
    by_cases hinteger : n.isInteger = true
    · refine .inr ⟨.int n.toInt, ?_, ?_⟩
      · rw [numberOfText?_of_isInteger hn hinteger,
          if_neg (Nat.not_lt.mpr (h.digits n hn hinteger))]
      · rw [nearestDouble?, Numeral.ofInt_toInt hinteger (h.sign n hn hinteger)]
    · exact .inr ⟨.float n.toDouble,
        numberOfText?_of_not_isInteger hn (Bool.eq_false_iff.mpr hinteger), rfl⟩

theorem floatValue_alike {name : Text} {v w : Value} (h : nearestDouble? v = nearestDouble? w) :
    SameEnd EncodeError.SameKind (· = ·) (floatValue name v) (floatValue name w) := by
  unfold floatValue
  rw [h]
  split
  · split
    · exact .ok rfl
    · exact .error ⟨rfl, nofun⟩
  · exact .error ⟨rfl, nofun⟩

/-- A value of a float type is its double and nothing else. -/
theorem primitive_float_alike {c c' : Config} {K : Primitive} (hfloat : K = .float32 ∨ K = .float64)
    {v w : Value} (h : nearestDouble? v = nearestDouble? w) :
    Output.Alike EncodeError.SameKind (· = ·) (primitive c K v) (primitive c' K w) := by
  rcases hfloat with rfl | rfl
  all_goals
    refine (Output.Alike.ofExcept (floatValue_alike h)).bind ?_
    rintro x _ rfl
    exact .refl .refl (fun _ => rfl) _

theorem primitive_float_result {c : Config} {v : Value} {x : Double} (h : nearestDouble? v = some x)
    (hx : x.isFinite = true) :
    (primitive c .float32 v).result = .ok (Write.singleBytes x) ∧
      (primitive c .float64 v).result = .ok (littleEndian 8 x.bits.toNat) := by
  have hvalue : ∀ name, floatValue name v = .ok x := by
    intro name
    rw [floatValue, h]
    exact if_pos hx
  rw [Output.result_eq_ok_iff_yields, Output.result_eq_ok_iff_yields]
  constructor
  · exact Output.yields_ofExcept_bind_iff.mpr
      ⟨x, hvalue _, written_yields_iff.mpr (Write.single_yields_iff.mpr ⟨hx, rfl⟩)⟩
  · exact Output.yields_ofExcept_bind_iff.mpr
      ⟨x, hvalue _, written_yields_iff.mpr (Write.double_yields_iff.mpr ⟨hx, rfl⟩)⟩

/-! ## Keys and strings -/

section Keys

variable {e e' : Encoder} {K : Primitive} {key link : Link} {levels levels' : Nat} {t : Text}

/-- A key is like a string if its number is, and is no number only if the string is none. -/
theorem keyed_alike (hnumeric : isNumeric (.primitive K) = true)
    (hnone : numberOfText? t = none →
      ∃ expected, primitive e'.config K (.text t) = Output.fail (.unexpected expected (.text t)))
    (hsome : ∀ k, numberOfText? t = some k → Output.Alike EncodeError.SameKind (· = ·)
      (primitive e.config K k) (primitive e'.config K (.text t))) :
    Output.Alike EncodeError.LikeString (· = ·)
      (keyed (visit e (levels + 1)) (.primitive K) key t)
      (visit e' (levels' + 1) (.primitive K) link (.text t)) := by
  rw [keyed_of_isNumeric hnumeric]
  show Output.Alike _ _ _ (primitive e'.config K (.text t))
  cases hnumber : numberOfText? t with
  | none =>
    obtain ⟨expected, hstring⟩ := hnone hnumber
    rw [hstring]
    exact .fail (.inr ⟨rfl, rfl⟩)
  | some k =>
    obtain ⟨hbytes, hend⟩ := hsome k hnumber
    refine ⟨hbytes, ?_⟩
    show SameEnd _ _ (primitive e.config K k).outcome _
    generalize (primitive e.config K k).outcome = r at hend
    generalize (primitive e'.config K (.text t)).outcome = r' at hend
    cases hend with
    | ok h => exact .ok h
    | error h => exact .error (.inl h)

theorem keyed_integer_alike (kind : IntKind) (display : IntegerDisplay) :
    Output.Alike EncodeError.LikeString (· = ·)
      (keyed (visit e (levels + 1)) (.primitive (.integer kind display)) key t)
      (visit e' (levels' + 1) (.primitive (.integer kind display)) link (.text t)) := by
  refine keyed_alike rfl (fun hnone => ⟨kind.name, ?_⟩) fun k hk => ?_
  · simp only [primitive, integerValue, hnone]
    rfl
  · have hnumber : integerValue kind k = integerValue kind (.text t) := by
      simp only [integerValue, hk]
      rcases number_of_numberOfText? hk with ⟨n, rfl⟩ | ⟨x, rfl⟩ <;> rfl
    have hsame : primitive e.config (.integer kind display) k =
        primitive e'.config (.integer kind display) (.text t) := by
      simp only [primitive, hnumber]
    rw [hsame]
    exact .refl .refl (fun _ => rfl) _

theorem keyed_float_alike (hfloat : K = .float32 ∨ K = .float64) (h : SameFloat t) :
    Output.Alike EncodeError.LikeString (· = ·)
      (keyed (visit e (levels + 1)) (.primitive K) key t)
      (visit e' (levels' + 1) (.primitive K) link (.text t)) := by
  have hnumeric : isNumeric (.primitive K) = true := by rcases hfloat with rfl | rfl <;> rfl
  rcases h.nearestDouble?_eq with ⟨hnone, hstring⟩ | ⟨k, hk, hsame⟩
  · refine keyed_alike hnumeric (fun _ => ?_) fun k hk => ?_
    · rcases hfloat with rfl | rfl
      · exact ⟨"f32", by simp only [primitive, floatValue, hstring]; rfl⟩
      · exact ⟨"f64", by simp only [primitive, floatValue, hstring]; rfl⟩
    · rw [hnone] at hk
      cases hk
  · refine keyed_alike hnumeric (fun hnone => ?_) fun k' hk' => ?_
    · rw [hk] at hnone
      cases hnone
    · obtain rfl := Option.some.inj (hk.symm.trans hk')
      exact primitive_float_alike hfloat hsame

/-- A zero has no sign as a key, but keeps its sign as a string. -/
theorem keyed_zero (hfloat : K = .float32 ∨ K = .float64) {n : Numeral} (hn : Spelled t.strip n)
    (htrim : t.strip = t.trim CodePoint.isWhiteSpace) (hinteger : n.isInteger = true)
    (hzero : n.coefficient = 0) (hnegative : n.negative = true)
    (hdigits : n.whole.length ≤ maxIntegerDigits) :
    ∃ count, (keyed (visit e (levels + 1)) (.primitive K) key t).result =
        .ok (List.replicate count 0 ++ [0]) ∧
      (visit e' (levels' + 1) (.primitive K) link (.text t)).result =
        .ok (List.replicate count 0 ++ [0x80]) := by
  have hnumber : numberOfText? t = some (.int n.toInt) := by
    rw [numberOfText?_of_isInteger hn hinteger, if_neg (Nat.not_lt.mpr hdigits)]
  obtain ⟨hint, hdouble⟩ := Numeral.ofInt_toInt_of_zero hinteger hzero
  have hkey : nearestDouble? (.int n.toInt) = some (.ofMagnitude false 0) := congrArg some hint
  have hstring : nearestDouble? (.text t) = some (.ofMagnitude true 0) := by
    rw [nearestDouble?_of_spelled hn htrim, hdouble, hnegative]
  have hkey' := primitive_float_result (c := e.config) hkey rfl
  have hstring' := primitive_float_result (c := e'.config) hstring rfl
  rcases hfloat with rfl | rfl
  · rw [keyed_of_isNumeric rfl, hnumber]
    exact ⟨3, hkey'.1, hstring'.1⟩
  · rw [keyed_of_isNumeric rfl, hnumber]
    exact ⟨7, hkey'.2, hstring'.2⟩

theorem keyed_of_length (hnumeric : isNumeric (.primitive K) = true) {n : Numeral}
    (hn : Spelled t.strip n) (hinteger : n.isInteger = true)
    (hdigits : maxIntegerDigits < n.whole.length) (next : Visit) :
    keyed next (.primitive K) key t = Output.fail (.notNumberKey t) := by
  rw [keyed_of_isNumeric hnumeric, numberOfText?_of_isInteger hn hinteger, if_pos hdigits]

/-- Separators around a number are trimmed of a key, but of no string: where there are some, the
number is a key and the string is refused. -/
theorem keyed_of_separated (hfloat : K = .float32 ∨ K = .float64)
    (hseparated : t.strip ≠ t.trim CodePoint.isWhiteSpace) {k : Value} {x : Double}
    (hk : numberOfText? t = some k) (hx : nearestDouble? k = some x) (hfinite : x.isFinite = true) :
    (∃ own, (keyed (visit e (levels + 1)) (.primitive K) key t).result = .ok own) ∧
      ∃ expected, (visit e' (levels' + 1) (.primitive K) link (.text t)).result =
        .error (.unexpected expected (.text t)) := by
  have hnumeric : isNumeric (.primitive K) = true := by rcases hfloat with rfl | rfl <;> rfl
  have hnone : nearestDouble? (.text t) = none := by
    by_contra hsome
    obtain ⟨x, hx⟩ := Option.ne_none_iff_exists'.mp hsome
    exact hseparated (strip_of_nearestDouble? hx)
  have hrefused : ∀ name, floatValue name (.text t) = .error (.unexpected name (.text t)) := by
    intro name
    rw [floatValue, hnone]
  obtain ⟨hsingle, hdouble⟩ := primitive_float_result (c := e.config) hx hfinite
  rw [keyed_of_isNumeric hnumeric, hk]
  show (∃ own, (primitive e.config K k).result = .ok own) ∧
    ∃ expected, (primitive e'.config K (.text t)).result = .error (.unexpected expected (.text t))
  rcases hfloat with rfl | rfl
  · exact ⟨⟨_, hsingle⟩, "f32", by rw [primitive, hrefused]; rfl⟩
  · exact ⟨⟨_, hdouble⟩, "f64", by rw [primitive, hrefused]; rfl⟩

end Keys

theorem SameFloat.of_spelled {t : Text} {n : Numeral} (hn : Spelled t.strip n)
    (htrim : t.strip = t.trim CodePoint.isWhiteSpace) (hfloat : n.isInteger = false) :
    SameFloat t where
  trimmed _ _ := htrim
  sign n' hn' hinteger := by
    obtain rfl := hn.unique hn'
    rw [hfloat] at hinteger
    cases hinteger
  digits n' hn' hinteger := by
    obtain rfl := hn.unique hn'
    rw [hfloat] at hinteger
    cases hinteger

end Encode

namespace Encoder

open Encode (Visit visit written keyed mapWith nearestDouble? SameFloat)

/-- Keys of a numeric type and texts at that type agree. A map writes the texts of its keys one by one,
each at the type of the keys. At an integer type every text is written as a key as it is written as
a string, and refused as a key exactly if it is refused as a string; at a float type this is so for
every text that is the same number on both ways. Of the others, a zero without fraction and exponent
loses its minus sign as a key, and text of too many digits is no key. -/
theorem numericKey_agrees (e e' : Encoder) {K : Primitive} {key : Link} {j : Nat}
    (hkey : e.schema.resolve key = .ok (.primitive K))
    (htype : e'.schema.types[j]? = some (.primitive K)) :
    (∀ levels value link v, visit e (levels + 1) (.map key value) link v =
      mapWith e.schema (visit e levels) (keyed (visit e levels) (.primitive K) key) value v) ∧
    ((∃ kind display, K = .integer kind display) → ∀ levels t,
      SameEnd EncodeError.LikeString (· = ·)
        (keyed (visit e (levels + 1)) (.primitive K) key t).result (e'.encode (.int j) (.text t))) ∧
    (K = .float32 ∨ K = .float64 →
      (∀ levels t, SameFloat t → SameEnd EncodeError.LikeString (· = ·)
        (keyed (visit e (levels + 1)) (.primitive K) key t).result (e'.encode (.int j) (.text t))) ∧
      ∀ levels t n, Spelled t.strip n → n.isInteger = true →
        (maxIntegerDigits < n.whole.length →
          (keyed (visit e (levels + 1)) (.primitive K) key t).result = .error (.notNumberKey t)) ∧
        (n.whole.length ≤ maxIntegerDigits → n.coefficient = 0 → n.negative = true →
          t.strip = t.trim CodePoint.isWhiteSpace →
          ∃ count, (keyed (visit e (levels + 1)) (.primitive K) key t).result =
              .ok (List.replicate count 0 ++ [0]) ∧
            e'.encode (.int j) (.text t) = .ok (List.replicate count 0 ++ [0x80]))) := by
  have hencode := encode_byIndex htype
  refine ⟨fun levels value _ v => Encode.map_eq_mapWith hkey (visit e levels) value v, ?_,
    fun hfloat => ⟨fun levels t h => ?_, fun levels t n hn hinteger => ⟨?_, ?_⟩⟩⟩
  · rintro ⟨kind, display, rfl⟩ levels t
    rw [hencode]
    exact (Encode.keyed_integer_alike kind display).result
  · rw [hencode]
    exact (Encode.keyed_float_alike hfloat h).result
  · intro hdigits
    have hnumeric : Encode.isNumeric (.primitive K) = true := by
      rcases hfloat with rfl | rfl <;> rfl
    rw [Encode.keyed_of_length hnumeric hn hinteger hdigits, Output.result_fail]
  · intro hdigits hzero hnegative htrim
    rw [hencode]
    exact Encode.keyed_zero hfloat hn htrim hinteger hzero hnegative hdigits

/-- Truth values by double, and doubles. -/
def marks : Encoder :=
  ⟨.build [.map (.immediate .float64) (.immediate .boolean), .primitive .float64] [0, 1]
    [⟨"", []⟩, ⟨"", []⟩] none [] [], .default⟩

theorem marks_agree :
    SameFloat " 1.5 " ∧ marks.encode (.int 1) (.text " 1.5 ") = .ok [0, 0, 0, 0, 0, 0, 0xF8, 0x3F] ∧
      (keyed (visit marks 256) (.primitive .float64) (.immediate .float64) " 1.5 ").result =
        .ok [0, 0, 0, 0, 0, 0, 0xF8, 0x3F] := by
  have hsame : SameFloat " 1.5 " :=
    .of_spelled (n := ⟨false, "1", some "5", none⟩) (Numeral.spelled_of_read? rfl) rfl rfl
  have hstring : marks.encode (.int 1) (.text " 1.5 ") = .ok [0, 0, 0, 0, 0, 0, 0xF8, 0x3F] :=
    eq_ok_of_toOption (by decide +kernel)
  have hkey : marks.schema.resolve (.immediate .float64) = .ok (.primitive .float64) := rfl
  obtain ⟨_, _, hfloat⟩ := numericKey_agrees marks marks (j := 1) hkey rfl
  exact ⟨hsame, hstring, ((hfloat (.inr rfl)).1 255 " 1.5 " hsame).eq_ok_iff.mpr hstring⟩

/-- One, after as many zeros as digits are converted. -/
def longOne : Text := List.replicate maxIntegerDigits 0x30 ++ [0x31]

theorem encode_mark (t : Text) (b : Bool) :
    marks.encode (.int 0) (.map [(.text t, .bool b)]) = (do
      written (Write.count 1)
      keyed (visit marks 256) (.primitive .float64) (.immediate .float64) t
      visit marks 256 (.primitive .boolean) (.immediate .boolean) (.bool b)).result := by
  show (Encode.map marks.schema (visit marks 256) (.immediate .float64) (.immediate .boolean)
    (.map [(.text t, .bool b)])).result = _
  have hkey : marks.schema.resolve (.immediate .float64) = .ok (.primitive .float64) := rfl
  rw [Encode.map_eq_mapWith hkey]
  unfold mapWith
  simp only [Value.mapping?, Encode.sortedEntries_singleton, Encode.keyText, Output.forEach,
    bind_pure_unit]
  rfl

theorem encode_string_mark {t : Text} {x : Double} (h : nearestDouble? (.text t) = some x)
    (hx : x.isFinite = true) :
    marks.encode (.int 1) (.text t) = .ok (littleEndian 8 x.bits.toNat) :=
  (encode_byIndex (e := marks) (j := 1) rfl (.text t)).trans
    (Encode.primitive_float_result (c := marks.config) h hx).2

theorem isDigit_longOne : ∀ c ∈ longOne, c.isDigit = true := by
  intro c hc
  rcases List.mem_append.mp hc with hc | hc
  · obtain rfl := List.eq_of_mem_replicate hc
    rfl
  · obtain rfl := List.mem_singleton.mp hc
    rfl

theorem toNat_longOne : Text.toNat longOne = 1 := by
  have hzeros : ∀ count : Nat, (List.replicate count (0x30 : CodePoint)).foldl
      (fun n c => 10 * n + c.digitValue) 0 = 0 := by
    intro count
    induction count with
    | zero => rfl
    | succ count ih => exact ih
  rw [longOne, Text.toNat, List.foldl_append, hzeros]
  rfl

theorem strip_longOne : longOne.strip = longOne :=
  Text.trim_eq_self fun c hc => Text.isBlank_of_isDigit (isDigit_longOne c hc)

theorem spelled_longOne : Spelled longOne.strip ⟨false, longOne, none, none⟩ := by
  rw [strip_longOne]
  refine .intro isDigit_longOne nofun (.inl (List.concat_ne_nil _ _)) .none ?_
  rw [Numeral.spellFraction, List.nil_append, List.append_nil]
  exact .none _

theorem keyed_longOne (next : Visit) :
    keyed next (.primitive .float64) (.immediate .float64) longOne =
      Output.fail (.notNumberKey longOne) := by
  have hlong : maxIntegerDigits < longOne.length := by
    rw [longOne, List.length_append, List.length_replicate]
    exact Nat.lt_succ_self _
  exact Encode.keyed_of_length rfl spelled_longOne rfl hlong next

theorem nearestDouble?_longOne :
    nearestDouble? (.text longOne) = some (Double.ofRatio false 1 1) := by
  have hspace : ∀ c ∈ longOne, c.isWhiteSpace = false := fun c hc =>
    Bool.eq_false_iff.mpr fun h => Bool.eq_false_iff.mp
      (Text.isBlank_of_isDigit (isDigit_longOne c hc)) (CodePoint.isBlank_of_isWhiteSpace h)
  have htrim : longOne.strip = longOne.trim CodePoint.isWhiteSpace :=
    strip_longOne.trans (Text.trim_eq_self hspace).symm
  have hone : (⟨false, longOne, none, none⟩ : Numeral).coefficient = 1 := by
    rw [Numeral.coefficient, Option.getD_none, List.append_nil, toNat_longOne]
  rw [Encode.nearestDouble?_of_spelled spelled_longOne htrim,
    Numeral.toDouble_eq_of_isInteger rfl, hone]

/-- A key and a string can differ: by the sign of a zero, in too many digits, and in a separator that is
trimmed of the one and not of the other. -/
theorem marks_differ :
    (marks.encode (.int 0) (.map [(.text "-0", .bool true)]) =
        .ok [1, 0, 0, 0, 0, 0, 0, 0, 0, 0, 0, 0, 1] ∧
      marks.encode (.int 1) (.text "-0") = .ok [0, 0, 0, 0, 0, 0, 0, 0x80]) ∧
    (marks.encode (.int 0) (.map [(.text longOne, .bool true)]) = .error (.notNumberKey longOne) ∧
      marks.encode (.int 1) (.text longOne) = .ok [0, 0, 0, 0, 0, 0, 0xF0, 0x3F]) ∧
    marks.encode (.int 0) (.map [(.text [0x1C, 0x31], .bool true)]) =
        .ok [1, 0, 0, 0, 0, 0, 0, 0, 0, 0, 0xF0, 0x3F, 1] ∧
      marks.encode (.int 1) (.text [0x1C, 0x31]) =
        .error (.unexpected "f64" (.text [0x1C, 0x31])) := by
  have hlong := encode_string_mark nearestDouble?_longOne (by decide +kernel)
  have hbytes : littleEndian 8 (Double.ofRatio false 1 1).bits.toNat =
      [0, 0, 0, 0, 0, 0, 0xF0, 0x3F] := by decide +kernel
  refine ⟨⟨?_, eq_ok_of_toOption (by decide +kernel)⟩, ⟨?_, hbytes ▸ hlong⟩, ?_, rfl⟩
  · rw [encode_mark]
    exact eq_ok_of_toOption (by decide +kernel)
  · rw [encode_mark, keyed_longOne]
    rfl
  · rw [encode_mark]
    exact eq_ok_of_toOption (by decide +kernel)

end Encoder

end BorshWire
