import BorshWire.Proofs.ByteText.RoundTrip
import BorshWire.Proofs.Refusal.Numbers

/-!
# The vocabulary of refusals

`encode_document`: the value of a document is encoded, or refused with a kind of the vocabulary, or
it holds more digits than are converted where a byte string is written in decimal. Integers and keys
of maps with so many digits are refused with a kind. A number of a decimal byte list is not, and such
a list leaves the vocabulary (`encode_longRun`). That every other refusal of the walk has a kind is
seen from the inventory of its refusals: those without one belong to collections that only claim a
length, and no document stands for these.

Besides, a refusal is reported in words, and no words are found where a number in them has too many
digits. No document holds such a number, but the root index, the schema and the limits may
(`encode_vastIndex`).
-/

namespace BorshWire

/-! ## Texts within texts -/

namespace Text

theorem trim_within (p : CodePoint → Bool) (t : Text) : t.trim p <:+: t := by
  have hfront : t.dropWhile p <:+ t := List.dropWhile_suffix p
  have hback : (t.dropWhile p).reverse.dropWhile p <:+ (t.dropWhile p).reverse :=
    List.dropWhile_suffix p
  have hstart := List.reverse_prefix.mpr hback
  rw [List.reverse_reverse] at hstart
  exact hstart.isInfix.trans hfront.isInfix

/-- The first piece is a start of the text, and every piece stands in it. -/
theorem splitOn_within (separator : CodePoint) (t : Text) :
    ∃ first rest, splitOn separator t = first :: rest ∧ first <+: t ∧
      ∀ piece ∈ rest, piece <:+: t := by
  induction t with
  | nil => exact ⟨[], [], rfl, List.nil_prefix, List.forall_mem_nil _⟩
  | cons c t ih =>
    obtain ⟨first, rest, hsplit, hfirst, hrest⟩ := ih
    have hlater : ∀ piece, piece <:+: t → piece <:+: c :: t :=
      fun piece h => h.trans (List.suffix_cons c t).isInfix
    unfold splitOn
    split
    · refine ⟨[], splitOn separator t, rfl, List.nil_prefix, fun piece h => hlater piece ?_⟩
      rw [hsplit] at h
      rcases List.mem_cons.mp h with rfl | h
      · exact hfirst.isInfix
      · exact hrest piece h
    · rw [hsplit]
      exact ⟨c :: first, rest, rfl, (List.prefix_cons_inj c).mpr hfirst,
        fun piece h => hlater piece (hrest piece h)⟩

theorem within_of_mem_splitOn {separator : CodePoint} {piece t : Text}
    (h : piece ∈ splitOn separator t) : piece <:+: t := by
  obtain ⟨first, rest, hsplit, hfirst, hrest⟩ := splitOn_within separator t
  rw [hsplit] at h
  rcases List.mem_cons.mp h with rfl | h
  · exact hfirst.isInfix
  · exact hrest piece h

end Text

namespace ByteText

theorem within_of_listBody? {t body : Text} (h : listBody? t = some body) : body <:+: t := by
  unfold listBody? at h
  split at h
  · rename_i rest hstrip
    split at h
    · obtain rfl := Option.some.inj h
      have hrest : rest.dropLast <:+: 0x5B :: rest :=
        (List.dropLast_prefix rest).isInfix.trans (List.suffix_cons _ _).isInfix
      rw [← hstrip] at hrest
      exact hrest.trans (Text.trim_within _ t)
    · cases h
  · cases h

/-- A run of more digits than are converted stands in a text. -/
structure HoldsLongRun (t run : Text) : Prop where
  digits : ∀ c ∈ run, c.isDigit = true
  long : maxIntegerDigits < run.length
  within : run <:+: t

theorem parseItem_error {t item : Text} {err : ByteTextError} (h : parseItem t item = .error err) :
    err.kind? = some .byteDisplay ∨ ∃ run, err = .digitLimit run.length ∧ HoldsLongRun item run := by
  unfold parseItem at h
  dsimp only at h
  split at h
  · obtain rfl := Except.error.inj h
    exact .inl rfl
  · rename_i hdigits
    simp only [Bool.or_eq_true, Bool.not_eq_true', not_or, Bool.not_eq_false,
      List.all_eq_true] at hdigits
    split at h
    · rename_i hlong
      obtain rfl := Except.error.inj h
      exact .inr ⟨_, rfl, hdigits.2, hlong, Text.trim_within _ item⟩
    · split at h
      · obtain rfl := Except.error.inj h
        exact .inl rfl
      · cases h

theorem parseDecimal_error {t : Text} {err : ByteTextError} (h : parseDecimal t = .error err) :
    err.kind? = some .byteDisplay ∨ ∃ run, err = .digitLimit run.length ∧ HoldsLongRun t run := by
  unfold parseDecimal at h
  split at h
  · obtain rfl := Except.error.inj h
    exact .inl rfl
  · rename_i body hbody
    split at h
    · cases h
    · obtain ⟨item, hitem, herr⟩ := exists_error_of_mapM h
      rcases parseItem_error herr with hkind | ⟨run, rfl, hrun⟩
      · exact .inl hkind
      · have hwithin := (Text.within_of_mem_splitOn hitem).trans (within_of_listBody? hbody)
        exact .inr ⟨run, rfl, hrun.digits, hrun.long, hrun.within.trans hwithin⟩

theorem parseHex_error {t : Text} {err : ByteTextError} (h : parseHex t = .error err) :
    err.kind? = some .byteDisplay := by
  unfold parseHex at h
  dsimp only at h
  split at h
  · obtain rfl := Except.error.inj h
    rfl
  · split at h
    · obtain rfl := Except.error.inj h
      rfl
    · cases h

/-- Byte texts are refused with their kind, but for long runs of digits in decimal. -/
theorem parse_error {display : ByteDisplay} {maxLength : Int} {t : Text} {err : ByteTextError}
    (h : parse display maxLength t = .error err) :
    err.kind? = some .byteDisplay ∨
      ∃ hrp run, display = .decimal hrp ∧ err = .digitLimit run.length ∧ HoldsLongRun t run := by
  cases display with
  | hex hrp => exact .inl (parseHex_error h)
  | decimal hrp => 
    rcases parseDecimal_error h with hkind | ⟨run, hrun⟩
    · exact .inl hkind
    · exact .inr ⟨hrp, run, rfl, hrun⟩
  | checksummed variant hrp nonempty =>
    unfold parse at h
    dsimp only at h
    cases hparse : Bech32.parse variant hrp maxLength t with
    | error reason =>
      rw [hparse] at h
      obtain rfl := Except.error.inj h
      exact .inl rfl
    | ok data =>
      rw [hparse] at h
      cases h

/-- A list whose first number is such a run is refused without a kind. -/
theorem parse_longRun (hrp : Option Text) (maxLength : Int) {run : Text}
    (hlong : maxIntegerDigits < run.length) (hdigits : ∀ c ∈ run, c.isDigit = true) :
    parse (.decimal hrp) maxLength (0x5B :: (run ++ [0x5D])) = .error (.digitLimit run.length) := by
  have hblank : ∀ c ∈ run, c.isBlank = false := fun c hc => Text.isBlank_of_isDigit (hdigits c hc)
  have hbody : listBody? (0x5B :: (run ++ [0x5D])) = some run := by
    rw [listBody?, Text.strip_between (by decide) (by decide)]
    simp
  have hstrip : run.strip = run := Text.trim_eq_self hblank
  have hcomma : (0x2C : CodePoint) ∉ run := fun h => absurd (hdigits _ h) (by decide)
  have hne : run ≠ [] := List.ne_nil_of_length_pos (by omega)
  have hitem : parseItem (0x5B :: (run ++ [0x5D])) run = .error (.digitLimit run.length) := by
    have hall : run.all CodePoint.isDigit = true := List.all_eq_true.mpr hdigits
    simp [parseItem, hstrip, hne, hall, hlong]
  show parseDecimal _ = _
  rw [parseDecimal, hbody]
  dsimp only
  rw [hstrip, if_neg (by simpa using hne), Text.splitOn_of_not_mem hcomma, List.mapM_cons, hitem]
  rfl

end ByteText

/-! ## Refusals of documents -/

namespace Encode

/-- More digits than are converted stand in a text of the value, and the schema has a byte string
with texts in decimal. -/
structure HoldsLongNumber (s : Schema) (root : Link) (v : Value) (digits : Nat) : Prop where
  mentioned : ∃ t run, v.Mentions t ∧ ByteText.HoldsLongRun t run ∧ run.length = digits
  reached : ∃ link p hrp, s.Reaches root link ∧ s.resolve link = .ok (.primitive p) ∧
    (p = .byteVec (.decimal hrp) ∨ ∃ length, p = .byteArray length (.decimal hrp))

/-- Of the value of a document a level refuses nothing without a kind, but for decimal byte lists
with too many digits. -/
theorem Refuses.kind_or_long {e : Encoder} {root link : Link} {type : Ty} {v w : Value}
    {err : EncodeError} (h : Refuses e link type w err) (hw : Handed e root v type link w) :
    (∃ kind, err.kind? = some kind) ∨
      ∃ digits, err = .byteText (.digitLimit digits) ∧ HoldsLongNumber e.schema root v digits := by
  have hdocument := hw.document
  cases h with
  | @byteText p display t err hp hparse =>
    rcases ByteText.parse_error hparse with hkind | ⟨hrp, run, rfl, rfl, hrun⟩
    · exact .inl ⟨.byteDisplay, hkind⟩
    · exact .inr ⟨run.length, rfl, ⟨t, run, hw.mentions t (.text t), hrun, rfl⟩,
        link, p, hrp, hw.reached, hw.resolved, hp⟩
  | misread h =>
    cases h with
    | unexpected expected _ => exact .inl ⟨.invalidType, rfl⟩
    | vastItems hi hcount =>
      cases hdocument with
      | list =>
        obtain rfl := Option.some.inj hi
        cases hcount
      | _ => cases hi
    | vastEntries hm hcount =>
      cases hdocument with
      | map =>
        obtain rfl := Option.some.inj hm
        cases hcount
      | _ => cases hm
    | unreadable hi hopened =>
      cases hdocument with
      | list =>
        obtain rfl := Option.some.inj hi
        cases hopened
      | _ => cases hi
  | noVariant hm hcount hentries =>
    cases hdocument with
    | map =>
      obtain rfl := Option.some.inj hm
      obtain rfl : _ = [] := hentries
      cases hcount
    | _ => cases hm
  | unspelledKey hm hkeys =>
    rw [checkKeys_of_texts fun entry he => (hdocument.entries hm entry he).1] at hkeys
    cases hkeys
  | _ => exact .inl ⟨_, rfl⟩

/-- Values of documents stay so on the way down, below the same root. -/
theorem document_invariant (e : Encoder) (root : Link) (v : Value) :
    Invariant e (fun _ type link w => Handed e root v type link w)
      (fun err => (∃ kind, err.kind? = some kind) ∨
        ∃ digits, err = .byteText (.digitLimit digits) ∧ HoldsLongNumber e.schema root v digits) where
  tooDeep _ := .inl ⟨.recursionLimit, rfl⟩
  own h hrefuses := hrefuses.kind_or_long h
  unresolved _ _ _ := .inl ⟨.unresolvedType, rfl⟩
  below h hc hr hpart := h.below hc hr hpart

end Encode

namespace Encoder

variable {e : Encoder}

/-- The value of a document is refused with a kind, whatever the root index, or it holds a number of
too many digits. -/
theorem encodeWithin_document {v : Value} (hv : v.OfDocument) (levels : Nat) (index : Int)
    {err : EncodeError} (herr : e.encodeWithin levels (.int index) v = .error err) :
    (∃ kind, err.kind? = some kind) ∨
      ∃ digits, err = .byteText (.digitLimit digits) ∧
        Encode.HoldsLongNumber e.schema (.byIndex index.toNat) v digits := by
  rcases encodeWithin_error_cases herr with rfl | ⟨type, hr, herr⟩
  · exact .inl ⟨.invalidIndex, rfl⟩
  · exact encodeWithin_fails (Encode.document_invariant e (.byIndex index.toNat) v) hr
      (.root hv hr) herr

/-- The value of a document is encoded, or its refusal is reported with a kind of the vocabulary and in
words, whatever the root index. Two things leave the vocabulary: a byte string that the schema lets be
written in decimal is met with more digits than are converted, and these stand in a text of the value;
or the refusal spells out a number of so many digits, which is the root index or one that the schema,
the limits or the length of a text bring along. -/
theorem encode_document {allowConstants : Bool} {doc : Document} {v : Value}
    (h : doc.parse allowConstants = .ok v) (index : Int) {err : EncodeError}
    (herr : e.encode (.int index) v = .error err ∨ ∃ stack, e.run stack (.int index) v = .error err) :
    (∃ kind words, err.report? = some (kind, words)) ∨
      (∃ digits, err = .byteText (.digitLimit digits) ∧
        Encode.HoldsLongNumber e.schema (.byIndex index.toNat) v digits) ∨
      ∃ n ∈ err.numbers, Text.spells n = false ∧
        (n = index ∨ Encode.Quotes e (.byIndex index.toNat) v n) := by
  have hv := Document.ofDocument_of_parse h
  obtain ⟨levels, herr⟩ : ∃ levels, e.encodeWithin levels (.int index) v = .error err := by
    rcases herr with herr | ⟨stack, herr⟩
    · exact ⟨_, herr⟩
    · exact ⟨_, herr⟩
  rcases encodeWithin_document hv levels index herr with ⟨kind, hkind⟩ | hlong
  · rcases EncodeError.report?_of_kind? hkind with hreport | ⟨n, hn, hlong⟩
    · exact .inl ⟨kind, _, hreport⟩
    · rcases encodeWithin_numbers hv herr n hn with hspells | hquoted
      · exact absurd (hspells.symm.trans hlong) (by decide)
      · exact .inr (.inr ⟨n, hn, hlong, hquoted⟩)
  · exact .inr (.inl hlong)

/-- A list of one number of too many digits is refused without a kind. -/
theorem encode_longRun {index : Nat} {hrp : Option Text}
    (htype : e.schema.types[index]? = some (.primitive (.byteVec (.decimal hrp)))) {run : Text}
    (hlong : maxIntegerDigits < run.length) (hdigits : ∀ c ∈ run, c.isDigit = true) :
    e.encode (.int index) (.text (0x5B :: (run ++ [0x5D]))) =
      .error (.byteText (.digitLimit run.length)) := by
  have hparse := ByteText.parse_longRun hrp e.config.maxBech32Length hlong hdigits
  have hstring : Encode.byteString "byte vector" e.config.maxBech32Length (.decimal hrp)
      (.text (0x5B :: (run ++ [0x5D]))) = .error (.byteText (.digitLimit run.length)) := by
    rw [Encode.byteString, hparse]
    rfl
  rw [encode, encodeWithin_int, htype]
  show (Encode.primitive e.config (.byteVec (.decimal hrp)) _).result = _
  rw [Encode.primitive, hstring]
  rfl

/-- Byte strings with texts in decimal. -/
def decimalBytes : Encoder :=
  ⟨.build [.primitive (.byteVec (.decimal none))] [0] [⟨"", []⟩] none [] [], .default⟩

/-- A list of one number, with one digit more than are converted. -/
def longList : Text := 0x5B :: (List.replicate (maxIntegerDigits + 1) 0x39 ++ [0x5D])

theorem encode_longList :
    decimalBytes.encode (.int 0) (.text longList) =
      .error (.byteText (.digitLimit (maxIntegerDigits + 1))) := by
  have hrun : ∀ c ∈ List.replicate (maxIntegerDigits + 1) (0x39 : CodePoint), c.isDigit = true := by
    intro c hc
    rw [List.eq_of_mem_replicate hc]
    rfl
  have hlength : (List.replicate (maxIntegerDigits + 1) (0x39 : CodePoint)).length =
      maxIntegerDigits + 1 := List.length_replicate
  have htype : decimalBytes.schema.types[0]? = some (Ty.primitive (.byteVec (.decimal none))) := rfl
  have hencode := encode_longRun htype (Nat.lt_of_lt_of_eq (Nat.lt_succ_self _) hlength.symm) hrun
  rw [hlength] at hencode
  exact hencode

theorem parse_longList (allowConstants : Bool) :
    (Document.text (0x22 :: (longList ++ [0x22]))).parse allowConstants = .ok (.text longList) := by
  refine Document.parse_quoted (fun c hc => ?_) allowConstants
  have hcases : c = 0x5B ∨ c = 0x39 ∨ c = 0x5D := by
    rcases List.mem_cons.mp hc with rfl | hc
    · exact .inl rfl
    · rcases List.mem_append.mp hc with hc | hc
      · exact .inr (.inl (List.eq_of_mem_replicate hc))
      · exact .inr (.inr (List.mem_singleton.mp hc))
  rcases hcases with rfl | rfl | rfl <;> decide

/-- The list is found in the value and the position in the schema. -/
theorem longList_holdsLongNumber :
    (Document.text (0x22 :: (longList ++ [0x22]))).parse true = .ok (.text longList) ∧
      Encode.HoldsLongNumber decimalBytes.schema (.byIndex 0) (.text longList)
        (maxIntegerDigits + 1) := by
  refine ⟨parse_longList true, ?_⟩
  rcases encode_document (parse_longList true) 0 (.inl encode_longList) with
    ⟨kind, words, hreport⟩ | ⟨digits, herr, hlong⟩ | ⟨n, hn, _⟩
  · cases hreport
  · cases herr
    exact hlong
  · cases hn

/-- A root index of too many digits is refused, but not reported. -/
theorem encode_vastIndex {n : Int} (hlong : Text.spells n = false)
    (hn : e.schema.types.length ≤ n.natAbs) (v : Value) :
    e.encode (.int n) v = .error (.invalidRoot (.int n)) ∧
      (EncodeError.invalidRoot (.int n)).report? = none := by
  have hposition : e.schema.rootPosition? (.int n) = none := by
    cases n with
    | ofNat m => exact if_neg (Nat.not_lt.mpr hn)
    | negSucc m => rfl
  have hnumber : n ∈ (EncodeError.invalidRoot (.int n)).numbers := List.mem_cons_self
  refine ⟨?_, EncodeError.report?_eq_none hnumber hlong⟩
  rw [encode, encodeWithin, hposition]

/-- A document whose value is refused without a kind, and an index that is refused under a kind but for
which no words are found. -/
theorem longList_without_kind :
    (Document.text (0x22 :: (longList ++ [0x22]))).parse true = .ok (.text longList) ∧
      (∃ err, decimalBytes.encode (.int 0) (.text longList) = .error err ∧ err.kind? = none) ∧
      ∃ (index : Int) (err : EncodeError),
        decimalBytes.encode (.int index) (.text longList) = .error err ∧ err.report? = none := by
  obtain ⟨n, hpos, hlong⟩ := Text.exists_not_spelled
  exact ⟨parse_longList true, ⟨_, encode_longList, rfl⟩, n, _,
    encode_vastIndex (e := decimalBytes) hlong hpos _⟩

end Encoder

end BorshWire
