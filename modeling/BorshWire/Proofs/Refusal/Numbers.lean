import BorshWire.Proofs.Json.Values
import BorshWire.Proofs.Refusal.Walk

/-!
# The numbers in refusals

A refusal that spells out a number of too many digits is not reported under its kind. The numbers in
the value of a document are short enough, and so are those that its texts stand for; hence
`Encoder.encodeWithin_numbers`: a long number in a refusal is the root index, or it comes from the schema,
the limits or the length of a text (`Encode.Quotes`).

What the walk comes upon below the value of a document is the value of a document, too, and holds no
other texts (`Encode.Handed`).
-/

namespace BorshWire

theorem Text.exists_not_spelled : ∃ n : Int, 1 ≤ n.natAbs ∧ spells n = false := by
  have hvast : ∀ bound : Nat, 1 ≤ bound → ∃ n : Int, 1 ≤ n.natAbs ∧ bound ≤ n.natAbs := by
    intro bound hbound
    refine ⟨bound, ?_, ?_⟩
    · rwa [Int.natAbs_natCast]
    · rw [Int.natAbs_natCast]
  obtain ⟨n, hpos, hn⟩ := hvast (tenPow maxIntegerDigits) (tenPow_pos maxIntegerDigits)
  exact ⟨n, hpos, spells_eq_false_iff.mpr hn⟩

/-! ## Texts and numbers of values -/

namespace Value

/-- A text that a value holds, as a scalar or as a key. -/
inductive Mentions : Value → Text → Prop where
  | text (t : Text) : Mentions (.text t) t
  | item {items : List Value} {v : Value} {t : Text} (hv : v ∈ items) (h : Mentions v t) :
    Mentions (.list items) t
  | key {entries : List (Key × Value)} {v : Value} {t : Text} (he : (.text t, v) ∈ entries) :
    Mentions (.map entries) t
  | value {entries : List (Key × Value)} {k : Key} {v : Value} {t : Text} (he : (k, v) ∈ entries)
    (h : Mentions v t) : Mentions (.map entries) t

theorem mem_numbersOf_iff {items : List Value} {n : Int} :
    n ∈ numbersOf items ↔ ∃ v ∈ items, n ∈ v.numbers := by
  induction items with
  | nil => simp [numbersOf]
  | cons v rest ih => simp [numbersOf, ih]

theorem mem_entryNumbers_iff {entries : List (Key × Value)} {n : Int} :
    n ∈ entryNumbers entries ↔ ∃ e ∈ entries, n ∈ e.1.numbers ∨ n ∈ e.2.numbers := by
  induction entries with
  | nil => simp [entryNumbers]
  | cons e rest ih => simp [entryNumbers, ih, or_assoc]

/-- A document holds no number of more digits than are converted. -/
theorem OfDocument.spells {v : Value} (h : v.OfDocument) : ∀ n ∈ v.numbers, Text.spells n = true := by
  induction h with
  | int h => exact List.forall_mem_singleton.mpr h
  | list _ ih =>
    intro n hn
    obtain ⟨v, hv, hn⟩ := mem_numbersOf_iff.mp hn
    exact ih v hv n hn
  | map hkey _ ih =>
    intro n hn
    obtain ⟨entry, he, hn | hn⟩ := mem_entryNumbers_iff.mp hn
    · obtain ⟨t, ht⟩ := hkey entry he
      rw [ht] at hn
      cases hn
    · exact ih entry he n hn
  | _ => exact nofun

theorem OfDocument.item {v w : Value} {items : Items} (hv : v.OfDocument)
    (hi : v.items? = some items) (hw : w ∈ items.toList) : w.OfDocument := by
  cases hv with
  | list hitems =>
    obtain rfl := Option.some.inj hi
    exact hitems _ hw
  | _ => cases hi

theorem OfDocument.entries {v : Value} {m : Mapping} (hv : v.OfDocument)
    (hm : v.mapping? = some m) : ∀ e ∈ m.entries, IsMember e := by
  cases hv with
  | map hkey hvalue =>
    obtain rfl := Option.some.inj hm
    exact fun e he => ⟨hkey e he, hvalue e he⟩
  | _ => cases hm

end Value

namespace Encode

/-! ## On the way down -/

theorem ofDocument_of_numberOfText? {t : Text} {w : Value} (h : numberOfText? t = some w) :
    w.OfDocument ∧ ∀ t', ¬w.Mentions t' := by
  rcases number_of_numberOfText? h with ⟨n, rfl⟩ | ⟨x, rfl⟩
  · exact ⟨.int (spells_of_numberOfText? h), nofun⟩
  · exact ⟨.float x, nofun⟩

/-- What the text of a key stands for is a number, or this text. -/
theorem ofDocument_of_keyValue {keyType : Ty} {t : Text} {w : Value}
    (h : keyValue keyType t = .ok w) : w.OfDocument ∧ ∀ t', w.Mentions t' → t' = t := by
  unfold keyValue at h
  split at h
  · split at h
    · rename_i n hn
      obtain rfl := Except.ok.inj h
      obtain ⟨hdoc, hnone⟩ := ofDocument_of_numberOfText? hn
      exact ⟨hdoc, fun t' h => absurd h (hnone t')⟩
    · cases h
  · obtain rfl := Except.ok.inj h
    refine ⟨.text t, fun t' h => ?_⟩
    cases h
    rfl

/-- What is handed down of the value of a document is one, too, and mentions no other texts. -/
theorem Part.ofDocument {type : Ty} {v w : Value} (h : Part type v w) (hv : v.OfDocument) :
    w.OfDocument ∧ ∀ t, w.Mentions t → v.Mentions t := by
  cases h with
  | same v h => exact ⟨hv, fun _ h => h⟩
  | item hi hw =>
    cases hv with
    | list hitems =>
      obtain rfl := Option.some.inj hi
      exact ⟨hitems _ hw, fun _ h => .item hw h⟩
    | _ => cases hi
  | entry hm hw =>
    cases hv with
    | map hkey hvalue =>
      obtain rfl := Option.some.inj hm
      exact ⟨hvalue _ hw, fun _ h => .value hw h⟩
    | _ => cases hm
  | @key _ _ _ _ entry hm he hw =>
    cases hv with
    | map hkey hvalue =>
      obtain rfl := Option.some.inj hm
      obtain ⟨k, inner⟩ := entry
      obtain ⟨t, rfl⟩ := hkey _ he
      obtain ⟨hdoc, honly⟩ := ofDocument_of_keyValue hw
      refine ⟨hdoc, fun t' h => ?_⟩
      obtain rfl := honly t' h
      exact .key he
    | _ => cases hm

/-- A type is met below a root with the value of a document, which mentions no texts but those of the
value at the root. -/
structure Handed (e : Encoder) (root : Link) (v : Value) (type : Ty) (link : Link) (w : Value) : Prop
    where
  reached : e.schema.Reaches root link
  resolved : e.schema.resolve link = .ok type
  document : w.OfDocument
  mentions : ∀ t, w.Mentions t → v.Mentions t

theorem Handed.root {e : Encoder} {link : Link} {type : Ty} {v : Value} (hv : v.OfDocument)
    (hr : e.schema.resolve link = .ok type) : Handed e link v type link v :=
  ⟨.root, hr, hv, fun _ h => h⟩

theorem Handed.below {e : Encoder} {root link child : Link} {type childType : Ty} {v w w' : Value}
    (h : Handed e root v type link w) (hc : child ∈ type.links)
    (hr : e.schema.resolve child = .ok childType) (hpart : Part type w w') :
    Handed e root v childType child w' := by
  obtain ⟨hw', hmentions⟩ := hpart.ofDocument h.document
  exact ⟨.step h.reached h.resolved hc, hr, hw', fun t ht => h.mentions t (hmentions t ht)⟩

/-! ## Numbers of refusals -/

end Encode

/-- A type says how many items or bytes there are. -/
inductive Ty.Declares : Ty → Nat → Prop where
  | array (length : Nat) (item : Link) : Declares (.array length item) length
  | byteArray (length : Nat) (display : ByteDisplay) :
    Declares (.primitive (.byteArray length display)) length
  | tuple (fields : List UnnamedField) (template : Option Text) (peekable : Bool) :
    Declares (.tuple fields template peekable) fields.length

namespace Encode

/-- Where a number in a refusal comes from if not from the value: from the limits, a link without a
type, a declared length, or the encoding of a text. -/
inductive Quotes (e : Encoder) (root : Link) (v : Value) : Int → Prop where
  | depth : Quotes e root v e.config.maxDepth
  | link {link : Link} {reason : Schema.Unresolved} {n : Int} (hl : e.schema.Reaches root link)
    (hr : e.schema.resolve link = .error reason) (hn : n ∈ reason.numbers) : Quotes e root v n
  | length {link : Link} {type : Ty} {n : Nat} (hl : e.schema.Reaches root link)
    (hr : e.schema.resolve link = .ok type) (hn : type.Declares n) : Quotes e root v n
  | encoding {t : Text} {data : List UInt8} (ht : v.Mentions t) (hd : t.utf8? = some data) :
    Quotes e root v data.length

/-- Every number in a refusal is short, or quoted. -/
def NumbersQuoted (e : Encoder) (root : Link) (v : Value) (err : EncodeError) : Prop :=
  ∀ n ∈ err.numbers, Text.spells n = true ∨ Quotes e root v n

theorem NumbersQuoted.of_spells {e : Encoder} {root : Link} {v : Value} {err : EncodeError}
    (h : ∀ n ∈ err.numbers, Text.spells n = true) : NumbersQuoted e root v err :=
  fun n hn => .inl (h n hn)

theorem NumbersQuoted.one {e : Encoder} {root : Link} {v : Value} {err : EncodeError} {n : Int}
    (h : err.numbers = [n]) (hn : Quotes e root v n) : NumbersQuoted e root v err := by
  intro m hm
  rw [h] at hm
  exact .inr (List.mem_singleton.mp hm ▸ hn)

theorem ofDocument_of_integerValue {kind : IntKind} {v n : Value} (hv : v.OfDocument)
    (h : integerValue kind v = .ok n) : n.OfDocument := by
  unfold integerValue at h
  split at h
  · exact Except.ok.inj h ▸ hv
  · exact Except.ok.inj h ▸ hv
  · split at h
    · rename_i m hm
      exact Except.ok.inj h ▸ (ofDocument_of_numberOfText? hm).1
    · cases h
  · cases h

/-- A variant that a document selects has the name of a text, and its payload comes from the document. -/
theorem ofDocument_of_selection {name : Text} {v payload : Value} {key : Key} (hv : v.OfDocument)
    (h : selection name v = .ok (key, payload)) : Value.IsMember (key, payload) := by
  unfold selection at h
  split at h
  · obtain ⟨rfl, rfl⟩ := Prod.mk.inj (Except.ok.inj h)
    exact ⟨⟨_, rfl⟩, .null⟩
  · split at h
    · cases h
    · rename_i m hm
      split at h
      · cases h
      · split at h
        · rename_i entry rest hentries
          obtain rfl := Except.ok.inj h
          exact hv.entries hm _ (hentries ▸ List.mem_cons_self)
        · cases h
      · cases h

theorem Refuses.numbersQuoted {e : Encoder} {root link : Link} {type : Ty} {v w : Value}
    {err : EncodeError} (h : Refuses e link type w err) (hw : Handed e root v type link w) :
    NumbersQuoted e root v err := by
  cases h with
  | misread h =>
    cases h with
    | unexpected _ hlooks =>
      rcases hlooks with rfl | ⟨items, hi, hfound⟩
      · exact .of_spells hw.document.spells
      · exact .of_spells (hw.document.item hi hfound).spells
    | _ => exact nofun
  | range hn => exact .of_spells (ofDocument_of_integerValue hw.document hn).spells
  | byteCount => exact .one rfl (.length hw.reached hw.resolved (.byteArray _ _))
  | vastText hdata => exact .one rfl (.encoding (hw.mentions _ (.text _)) hdata)
  | unknownVariant hselected =>
    obtain ⟨⟨t, rfl⟩, _⟩ := ofDocument_of_selection hw.document hselected
    exact nofun
  | unusedPayload hselected =>
    exact .of_spells (ofDocument_of_selection hw.document hselected).2.spells
  | unusedEntries hm hrest =>
    have hmembers : ∀ entry ∈ _, Value.IsMember entry := fun entry he =>
      hw.document.entries hm entry (hrest he)
    exact .of_spells (Value.OfDocument.of_members hmembers).spells
  | fieldCount => exact .one rfl (.length hw.reached hw.resolved (.tuple _ _ _))
  | itemCount => exact .one rfl (.length hw.reached hw.resolved (.array _ _))
  | _ => exact nofun

/-- The numbers stay quoted on the way down. -/
theorem numbers_invariant (e : Encoder) (root : Link) (v : Value) :
    Invariant e (fun _ type link w => Handed e root v type link w) (NumbersQuoted e root v) where
  tooDeep _ := .one rfl .depth
  own h hrefuses := hrefuses.numbersQuoted h
  unresolved h hc hr := fun _ hn => .inr (.link (.step h.reached h.resolved hc) hr hn)
  below h hc hr hpart := h.below hc hr hpart

end Encode

theorem EncodeError.report?_eq_none {err : EncodeError} {n : Int} (hn : n ∈ err.numbers)
    (hlong : Text.spells n = false) : err.report? = none := by
  unfold report? reported
  split
  · refine if_neg fun hall => ?_
    exact Bool.false_ne_true (hlong.symm.trans (List.all_eq_true.mp hall n hn))
  · rfl

theorem EncodeError.report?_of_kind? {err : EncodeError} {kind : ErrorKind}
    (h : err.kind? = some kind) :
    err.report? = some (kind, err.words) ∨ ∃ n ∈ err.numbers, Text.spells n = false := by
  unfold report? reported
  rw [h]
  by_cases hall : err.numbers.all Text.spells = true
  · exact .inl (if_pos hall)
  · rw [Bool.not_eq_true, List.all_eq_false] at hall
    obtain ⟨n, hn, hlong⟩ := hall
    exact .inr ⟨n, hn, Bool.not_eq_true _ ▸ hlong⟩

/-- A long number in a refusal of the value of a document is the root index, or it is quoted. -/
theorem Encoder.encodeWithin_numbers {e : Encoder} {v : Value} (hv : v.OfDocument) {levels : Nat}
    {index : Int} {err : EncodeError} (herr : e.encodeWithin levels (.int index) v = .error err) :
    ∀ n ∈ err.numbers, Text.spells n = true ∨ n = index ∨
      Encode.Quotes e (.byIndex index.toNat) v n := by
  intro n hn
  rcases encodeWithin_error_cases herr with rfl | ⟨type, hr, herr⟩
  · exact .inr (.inl (List.mem_singleton.mp hn))
  · have hquoted := encodeWithin_fails (Encode.numbers_invariant e (.byIndex index.toNat) v) hr
      (.root hv hr) herr
    exact (hquoted n hn).imp_right .inr

end BorshWire
