import BorshWire.Proofs.Refusal.WellFormed

/-!
# What a refusal tells of the schema

`reaches_of_refusal`: the kind of a refusal names a sort of type (`ErrorKind.DueTo`), and a type of that
sort is reachable from the root. In particular only integers are out of range: discriminants are bytes,
counts have been checked by the time they are written, floats are finite, and the length of a text
fits unless the value holds a text of four gigabytes.
-/

namespace BorshWire

/-! ## Texts of a value -/

namespace Value

/-- A text that a value holds, as a scalar or as a key. A key that is no text counts as the text that
stands for it. -/
inductive HoldsText : Value → Text → Prop where
  | text (t : Text) : HoldsText (.text t) t
  | item {v w : Value} {items : Items} {t : Text} (hi : v.items? = some items)
    (hw : w ∈ items.toList) (h : HoldsText w t) : HoldsText v t
  | entry {v w : Value} {m : Mapping} {k : Key} {t : Text} (hm : v.mapping? = some m)
    (hw : (k, w) ∈ m.entries) (h : HoldsText w t) : HoldsText v t
  | key {v : Value} {m : Mapping} {entry : Key × Value} (hm : v.mapping? = some m)
    (he : entry ∈ m.entries) : HoldsText v (Encode.keyText entry.1)

/-- Every text of the value takes a number of bytes that four bytes hold. That is asked of the texts that
stand for the other keys of maps, too: they are written where keys are texts. -/
def HasShortTexts (v : Value) : Prop :=
  ∀ t data, v.HoldsText t → t.utf8? = some data → data.length < twoPow 32

end Value

/-- What a level hands down holds only texts of the value. -/
theorem Encode.Part.holdsText {type : Ty} {v w : Value} (h : Encode.Part type v w) {t : Text}
    (ht : w.HoldsText t) : v.HoldsText t := by
  cases h with
  | same v _ => exact ht
  | item hi hw => exact .item hi hw ht
  | entry hm hw => exact .entry hm hw ht
  | key hm he hw =>
    have hkey : ∀ {u : Value}, u.items? = none → u.mapping? = none → u.HoldsText t → u = .text t := by
      intro u hi hm hu
      cases hu with
      | text t => rfl
      | item hi' => cases hi.symm.trans hi'
      | entry hm' => cases hm.symm.trans hm'
      | key hm' => cases hm.symm.trans hm'
    rcases Encode.eq_of_keyValue hw with rfl | ⟨n, rfl⟩ | ⟨x, rfl⟩
    · obtain rfl := Value.text.inj (hkey rfl rfl ht)
      exact .key hm he
    · cases hkey rfl rfl ht
    · cases hkey rfl rfl ht

/-! ## Kinds and types -/

namespace ErrorKind

/-- The kinds of refusals that depend on which types there are. -/
def ofTypes : List ErrorKind :=
  [outOfRange, byteDisplay, json, invalidVecLength, wrongArrayLength, malformedEnum,
    invalidDiscriminant, missingType, unusedInput, missingMetadata]

/-- The types at which a value can be refused with a kind of `ofTypes`. -/
def DueTo (s : Schema) (kind : ErrorKind) (type : Ty) : Prop :=
  match kind with
  | outOfRange => ∃ k display, type = .primitive (.integer k display)
  | byteDisplay =>
    (∃ length display, type = .primitive (.byteArray length display)) ∨
      ∃ display, type = .primitive (.byteVec display)
  | json => ∃ key value keyType, type = .map key value ∧ s.resolve key = .ok keyType ∧
      ((∃ k display, keyType = .primitive (.integer k display)) ∨
        keyType = .primitive .float32 ∨ keyType = .primitive .float64)
  | invalidVecLength =>
    (∃ item, type = .vec item) ∨ (∃ key value, type = .map key value) ∨
      ∃ display, type = .primitive (.byteVec display)
  | wrongArrayLength =>
    (∃ length display, type = .primitive (.byteArray length display)) ∨
      (∃ length item, type = .array length item) ∨
      ∃ fields template peekable, type = .tuple fields template peekable ∧ fields.length ≠ 1
  | malformedEnum | invalidDiscriminant =>
    ∃ name variants hideTag, type = .enumeration name variants hideTag
  | missingType | unusedInput | missingMetadata =>
    (∃ name variants hideTag, type = .enumeration name variants hideTag) ∨
      ∃ name fields template peekable, type = .struct name fields template peekable
  | _ => False

end ErrorKind

namespace Encode

theorem eq_of_isNumeric {type : Ty} (h : isNumeric type = true) :
    (∃ k display, type = .primitive (.integer k display)) ∨
      type = .primitive .float32 ∨ type = .primitive .float64 := by
  unfold isNumeric at h
  split at h
  · exact .inl ⟨_, _, rfl⟩
  · exact .inr (.inl rfl)
  · exact .inr (.inr rfl)
  · cases h

theorem Misread.not_mem {v : Value} {err : EncodeError} (h : Misread v err) {kind : ErrorKind}
    (hk : err.kind? = some kind) : kind ∉ ErrorKind.ofTypes := by
  cases h with
  | unexpected =>
    obtain rfl := Option.some.inj hk
    decide
  | _ => cases hk

section DueTo

variable {e : Encoder} {link : Link} {v : Value} {err : EncodeError} {kind : ErrorKind}

theorem dueTo_primitive {p : Primitive} (h : Refuses e link (.primitive p) v err)
    (hv : v.HasShortTexts) (hmem : kind ∈ ErrorKind.ofTypes) (hk : err.kind? = some kind) :
    kind.DueTo e.schema (.primitive p) := by
  cases h with
  | misread h => exact absurd hmem (h.not_mem hk)
  | noNames name hn => cases hn
  | range =>
    obtain rfl := Option.some.inj hk
    exact ⟨_, _, rfl⟩
  | byteText hp hparse =>
    obtain rfl := ByteTextError.eq_byteDisplay_of_kind? hk
    rcases hp with rfl | ⟨length, rfl⟩
    · exact .inr ⟨_, rfl⟩
    · exact .inl ⟨_, _, rfl⟩
  | byteCount =>
    obtain rfl := Option.some.inj hk
    exact .inl ⟨_, _, rfl⟩
  | tooManyBytes =>
    obtain rfl := Option.some.inj hk
    exact .inr (.inr ⟨_, rfl⟩)
  | surrogate =>
    obtain rfl := Option.some.inj hk
    exact absurd hmem (by decide)
  | vastText hutf8 hlong => exact absurd (hv _ _ (.text _) hutf8) (Nat.not_lt.mpr hlong)

theorem dueTo_enumeration {name : Text} {variants : List Variant} {hideTag : Bool}
    (h : Refuses e link (.enumeration name variants hideTag) v err)
    (hmem : kind ∈ ErrorKind.ofTypes) (hk : err.kind? = some kind) :
    kind.DueTo e.schema (.enumeration name variants hideTag) := by
  cases h with
  | misread h => exact absurd hmem (h.not_mem hk)
  | noVariant => cases hk
  | noNames | missingPayload | unusedPayload =>
    obtain rfl := Option.some.inj hk
    exact .inl ⟨_, _, _, rfl⟩
  | notSingleVariant | unknownVariant =>
    obtain rfl := Option.some.inj hk
    exact ⟨_, _, _, rfl⟩

theorem dueTo_struct {name : Text} {fields : List NamedField} {template : Option Text}
    {peekable : Bool} (h : Refuses e link (.struct name fields template peekable) v err)
    (hmem : kind ∈ ErrorKind.ofTypes) (hk : err.kind? = some kind) :
    kind.DueTo e.schema (.struct name fields template peekable) := by
  cases h with
  | misread h => exact absurd hmem (h.not_mem hk)
  | noNames | tooFewNames | missingField | unusedEntries =>
    obtain rfl := Option.some.inj hk
    exact .inr ⟨_, _, _, _, rfl⟩

theorem dueTo_tuple {fields : List UnnamedField} {template : Option Text} {peekable : Bool}
    (h : Refuses e link (.tuple fields template peekable) v err)
    (hmem : kind ∈ ErrorKind.ofTypes) (hk : err.kind? = some kind) :
    kind.DueTo e.schema (.tuple fields template peekable) := by
  cases h with
  | misread h => exact absurd hmem (h.not_mem hk)
  | noNames name hn => cases hn
  | fieldCount hne =>
    obtain rfl := Option.some.inj hk
    exact .inr (.inr ⟨_, _, _, rfl, hne⟩)

theorem dueTo_option {item : Link} (h : Refuses e link (.option item) v err)
    (hmem : kind ∈ ErrorKind.ofTypes) (hk : err.kind? = some kind) :
    kind.DueTo e.schema (.option item) := by
  cases h with
  | misread h => exact absurd hmem (h.not_mem hk)
  | noNames name hn => cases hn

theorem dueTo_array {length : Nat} {item : Link} (h : Refuses e link (.array length item) v err)
    (hmem : kind ∈ ErrorKind.ofTypes) (hk : err.kind? = some kind) :
    kind.DueTo e.schema (.array length item) := by
  cases h with
  | misread h => exact absurd hmem (h.not_mem hk)
  | noNames name hn => cases hn
  | itemCount =>
    obtain rfl := Option.some.inj hk
    exact .inr (.inl ⟨_, _, rfl⟩)

theorem dueTo_vec {item : Link} (h : Refuses e link (.vec item) v err)
    (hmem : kind ∈ ErrorKind.ofTypes) (hk : err.kind? = some kind) :
    kind.DueTo e.schema (.vec item) := by
  cases h with
  | misread h => exact absurd hmem (h.not_mem hk)
  | noNames name hn => cases hn
  | tooManyItems =>
    obtain rfl := Option.some.inj hk
    exact .inl ⟨_, rfl⟩

theorem dueTo_map {key value : Link} (h : Refuses e link (.map key value) v err)
    (hmem : kind ∈ ErrorKind.ofTypes) (hk : err.kind? = some kind) :
    kind.DueTo e.schema (.map key value) := by
  cases h with
  | misread h => exact absurd hmem (h.not_mem hk)
  | noNames name hn => cases hn
  | unspelledKey => cases hk
  | tooManyEntries =>
    obtain rfl := Option.some.inj hk
    exact .inr (.inl ⟨_, _, rfl⟩)
  | notNumberKey hr hn =>
    obtain rfl := Option.some.inj hk
    exact ⟨_, _, _, rfl, hr, eq_of_isNumeric hn⟩

/-- What a level refuses by itself is due to its type. -/
theorem Refuses.dueTo {type : Ty} (h : Refuses e link type v err) (hv : v.HasShortTexts)
    (hmem : kind ∈ ErrorKind.ofTypes) (hk : err.kind? = some kind) : kind.DueTo e.schema type := by
  cases type with
  | primitive p => exact dueTo_primitive h hv hmem hk
  | enumeration name variants hideTag => exact dueTo_enumeration h hmem hk
  | struct name fields template peekable => exact dueTo_struct h hmem hk
  | tuple fields template peekable => exact dueTo_tuple h hmem hk
  | option item => exact dueTo_option h hmem hk
  | array length item => exact dueTo_array h hmem hk
  | vec item => exact dueTo_vec h hmem hk
  | map key value => exact dueTo_map h hmem hk

end DueTo

/-- A type that a kind of refusal is due to is met on the way down from the root. -/
def ReachesDueTo (s : Schema) (root : Link) (kind : ErrorKind) : Prop :=
  ∃ link type, s.Reaches root link ∧ s.resolve link = .ok type ∧ kind.DueTo s type

/-- Short texts stay so on the way down, below the same root. -/
theorem provenance_invariant (e : Encoder) (root : Link) :
    Invariant e
      (fun _ type link v => e.schema.Reaches root link ∧ e.schema.resolve link = .ok type ∧
        v.HasShortTexts)
      (fun err => ∀ kind ∈ ErrorKind.ofTypes, err.kind? = some kind →
        ReachesDueTo e.schema root kind) where
  tooDeep := by
    rintro type link v _ kind hmem hk
    obtain rfl := Option.some.inj hk
    exact absurd hmem (by decide)
  own := by
    rintro levels type link v err ⟨hreach, hr, hv⟩ h kind hmem hk
    exact ⟨link, type, hreach, hr, h.dueTo hv hmem hk⟩
  unresolved := by
    rintro levels type link child v reason _ _ _ kind hmem hk
    obtain rfl := Option.some.inj hk
    exact absurd hmem (by decide)
  below := by
    rintro levels type childType link child v w ⟨hreach, hr, hv⟩ hc hchild hpart
    exact ⟨hreach.step hr hc, hchild, fun t data ht => hv t data (hpart.holdsText ht)⟩

end Encode

namespace Encoder

open Encode (RefusedWith ReachesDueTo)

variable {e : Encoder} {v : Value}

theorem encodeWithin_reaches (hv : v.HasShortTexts) {levels : Nat} {index : Int} {kind : ErrorKind}
    (hmem : kind ∈ ErrorKind.ofTypes) (h : RefusedWith (e.encodeWithin levels (.int index) v) kind) :
    ReachesDueTo e.schema (.byIndex index.toNat) kind := by
  obtain ⟨err, herr, hk⟩ := h
  rcases encodeWithin_error_cases herr with rfl | ⟨type, hr, herr⟩
  · obtain rfl := Option.some.inj hk
    exact absurd hmem (by decide)
  · exact encodeWithin_fails (Encode.provenance_invariant e (.byIndex index.toNat)) hr
      ⟨.root, hr, hv⟩ herr kind hmem hk

/-- A refusal is due to a type that is reachable from the root. If a value without texts of four
gigabytes and more is refused as out of range, there is an integer type; as a byte text, a byte array
or vector; for a key that is no number, a map whose keys are numbers; for too great a length, a vector,
a map or a byte vector; for a wrong length, an array, a byte array or a tuple of other than one
field; for its variant, an enum; and for what is missing or left over, an enum or a struct. -/
theorem reaches_of_refusal (hv : v.HasShortTexts) {index : Int} {kind : ErrorKind}
    (hmem : kind ∈ ErrorKind.ofTypes)
    (h : RefusedWith (e.encode (.int index) v) kind ∨
      ∃ stack, RefusedWith (e.run stack (.int index) v) kind) :
    ∃ link type, e.schema.Reaches (.byIndex index.toNat) link ∧
      e.schema.resolve link = .ok type ∧ kind.DueTo e.schema type := by
  rcases h with h | ⟨stack, h⟩
  · exact encodeWithin_reaches hv hmem h
  · exact encodeWithin_reaches hv hmem h

end Encoder

/-- Counters by number. -/
def Schema.counters : Schema :=
  build [.map (.byIndex 1) (.immediate (.integer ⟨false, .w8⟩ ⟨.decimal, none, none, none⟩)),
      .primitive (.integer ⟨false, .w16⟩ ⟨.hex, none, none, none⟩)]
    [0] [⟨"", []⟩, ⟨"", []⟩] none [] []

/-- The counter of a number that is written in another base than ten. -/
def Value.hexCounter : Value := .map [(.text "0x07", .int 1)]

theorem Value.hexCounter_hasShortTexts : hexCounter.HasShortTexts := by
  intro t data ht hdata
  have hkey : t = "0x07" := by
    cases ht with
    | item hi => cases hi
    | entry hm hw h =>
      obtain rfl := Option.some.inj hm
      obtain ⟨rfl, rfl⟩ := Prod.mk.inj (List.mem_singleton.mp hw)
      cases h with
      | item hi => cases hi
      | entry hm => cases hm
      | key hm => cases hm
    | key hm he =>
      obtain rfl := Option.some.inj hm
      obtain rfl := List.mem_singleton.mp he
      rfl
  subst hkey
  obtain rfl := Option.some.inj hdata
  decide

open Encode (RefusedWith) in
/-- The key is refused, and there is a map whose keys are numbers. -/
theorem Encoder.counters_reach_numericMap :
    let e : Encoder := ⟨.counters, .default⟩
    RefusedWith (e.encode (.int 0) .hexCounter) .json ∧
      ∃ link type, e.schema.Reaches (.byIndex 0) link ∧ e.schema.resolve link = .ok type ∧
        ErrorKind.json.DueTo e.schema type := by
  intro e
  have hrefused : RefusedWith (e.encode (.int 0) .hexCounter) .json := by
    refine ⟨.notNumberKey "0x07", ?_, rfl⟩
    show (Encode.map e.schema (Encode.visit e 256) (.byIndex 1) _ .hexCounter).result = _
    unfold Encode.map Value.hexCounter
    simp only [Value.mapping?, Encode.sortedEntries_singleton]
    rfl
  exact ⟨hrefused, reaches_of_refusal Value.hexCounter_hasShortTexts (by decide) (.inl hrefused)⟩

end BorshWire
