import BorshWire.Proofs.Entries
import BorshWire.Proofs.Refusal.Output
import BorshWire.Proofs.Schema.Complete
import BorshWire.Proofs.Simulation.Walk

/-!
# Why a walk fails

`Encode.step_failsOnly`: one level of the walk fails for a reason of its own (`Refuses`, with what
has to be true of type, link and value), at a link without a type, or because the walk below fails
at a component of the type and a part of the value (`Part`). `Invariant.visit_failsOnly` turns this
into a statement about whole walks: a property of positions that is handed down from level to level
decides which errors a walk can end with.
-/

namespace BorshWire

namespace Encode

/-- The types that hand their value down as it is. -/
def isTransparent : Ty → Bool
  | .option _ => true
  | .tuple [_] _ _ => true
  | _ => false

/-- What a level hands down of a value: the value itself, an item of a sequence, the value of an
entry, or what the text of a key stands for. -/
inductive Part : Ty → Value → Value → Prop where
  | same {type : Ty} (v : Value) (h : isTransparent type = true) : Part type v v
  | item {type : Ty} {v w : Value} {items : Items} (hi : v.items? = some items)
    (hw : w ∈ items.toList) : Part type v w
  | entry {type : Ty} {v w : Value} {m : Mapping} {k : Key} (hm : v.mapping? = some m)
    (hw : (k, w) ∈ m.entries) : Part type v w
  | key {type keyType : Ty} {v w : Value} {m : Mapping} {entry : Key × Value}
    (hm : v.mapping? = some m) (he : entry ∈ m.entries)
    (hw : keyValue keyType (keyText entry.1) = .ok w) : Part type v w

/-- A value that a level looks at: the one at hand, or an item of it. -/
def Looks (v found : Value) : Prop :=
  found = v ∨ ∃ items, v.items? = some items ∧ found ∈ items.toList

/-- What a level refuses of a value that it cannot take for anything, whatever the type: a value of the
wrong sort, and a collection that is not counted or not gone through. -/
inductive Misread (v : Value) : EncodeError → Prop where
  | unexpected {found : Value} (expected : Text) (h : Looks v found) :
    Misread v (.unexpected expected found)
  | vastItems {items : Items} {reason : Uncountable} (hi : v.items? = some items)
    (h : items.count = .error reason) : Misread v (.uncountable reason)
  | vastEntries {m : Mapping} {reason : Uncountable} (hm : v.mapping? = some m)
    (h : m.count = .error reason) : Misread v (.uncountable reason)
  | unreadable {items : Items} {reason : Unreadable} (hi : v.items? = some items)
    (h : items.opened = .error reason) : Misread v (.unreadable reason)

/-- What a level refuses by itself, at a type that was reached through a link. -/
inductive Refuses (e : Encoder) (link : Link) : Ty → Value → EncodeError → Prop where
  | misread {type : Ty} {v : Value} {err : EncodeError} (h : Misread v err) :
    Refuses e link type v err
  | range {kind : IntKind} {display : IntegerDisplay} {v n : Value}
    (h : integerValue kind v = .ok n) :
    Refuses e link (.primitive (.integer kind display)) v (.write (.outOfRange kind.name n))
  | byteText {p : Primitive} {display : ByteDisplay} {t : Text} {err : ByteTextError}
    (hp : p = .byteVec display ∨ ∃ length, p = .byteArray length display)
    (h : ByteText.parse display e.config.maxBech32Length t = .error err) :
    Refuses e link (.primitive p) (.text t) (.byteText err)
  | byteCount {length : Nat} {display : ByteDisplay} {v : Value} {count : Nat}
    (h : count ≠ length) :
    Refuses e link (.primitive (.byteArray length display)) v (.wrongLength length count)
  | tooManyBytes {display : ByteDisplay} {v : Value} {count : Nat} (h : maxCount < count) :
    Refuses e link (.primitive (.byteVec display)) v (.tooMany count)
  | surrogate {t : Text} (h : t.utf8? = none) :
    Refuses e link (.primitive .string) (.text t) (.write .loneSurrogate)
  | vastText {t : Text} {data : List UInt8} (h : t.utf8? = some data)
    (hlong : twoPow 32 ≤ data.length) :
    Refuses e link (.primitive .string) (.text t)
      (.write (.outOfRange Write.countKind.name (.int data.length)))
  | noVariant {name : Text} {variants : List Variant} {hideTag : Bool} {v : Value} {m : Mapping}
    (hm : v.mapping? = some m) (hcount : m.count = .ok 1) (hentries : m.entries = []) :
    Refuses e link (.enumeration name variants hideTag) v .noVariant
  | notSingleVariant {name : Text} {variants : List Variant} {hideTag : Bool} {v : Value}
    {m : Mapping} {count : Nat} (hm : v.mapping? = some m) (hcount : m.count = .ok count)
    (hne : count ≠ 1) :
    Refuses e link (.enumeration name variants hideTag) v (.notSingleVariant count)
  | unknownVariant {name : Text} {variants : List Variant} {hideTag : Bool} {v payload : Value}
    {key : Key} (h : selection name v = .ok (key, payload)) :
    Refuses e link (.enumeration name variants hideTag) v (.unknownVariant key name)
  | missingPayload {name : Text} {variants : List Variant} {hideTag : Bool} {v : Value}
    {variant : Variant} (hv : variant ∈ variants) :
    Refuses e link (.enumeration name variants hideTag) v (.missingPayload name variant.name)
  | unusedPayload {name : Text} {variants : List Variant} {hideTag : Bool} {v payload : Value}
    {key : Key} (h : selection name v = .ok (key, payload)) :
    Refuses e link (.enumeration name variants hideTag) v (.unused payload)
  | noNames {type : Ty} {v : Value} (name : Text) (hn : type.isNamed = true)
    (h : e.schema.table? link = none) : Refuses e link type v (.noNames name)
  | tooFewNames {name : Text} {fields : List NamedField} {template : Option Text} {peekable : Bool}
    {v : Value} {table : NameTable} (h : e.schema.table? link = some table)
    (hlt : table.names.length < fields.length) :
    Refuses e link (.struct name fields template peekable) v
      (.tooFewNames name table.names.length fields.length)
  | missingField {name : Text} {fields : List NamedField} {template : Option Text}
    {peekable : Bool} {v : Value} {field : NamedField} (hf : field ∈ fields) :
    Refuses e link (.struct name fields template peekable) v
      (.missingField name field.displayName)
  | unusedEntries {name : Text} {fields : List NamedField} {template : Option Text}
    {peekable : Bool} {v : Value} {m : Mapping} {rest : List (Key × Value)}
    (hm : v.mapping? = some m) (h : rest ⊆ m.entries) :
    Refuses e link (.struct name fields template peekable) v (.unused (.map rest))
  | fieldCount {fields : List UnnamedField} {template : Option Text} {peekable : Bool} {v : Value}
    {count : Nat} (hf : fields.length ≠ 1) (h : count ≠ fields.length) :
    Refuses e link (.tuple fields template peekable) v (.wrongLength fields.length count)
  | itemCount {length : Nat} {item : Link} {v : Value} {count : Nat} (h : count ≠ length) :
    Refuses e link (.array length item) v (.wrongLength length count)
  | tooManyItems {item : Link} {v : Value} {count : Nat} (h : maxCount < count) :
    Refuses e link (.vec item) v (.tooMany count)
  | tooManyEntries {key value : Link} {v : Value} {count : Nat} (h : maxCount < count) :
    Refuses e link (.map key value) v (.tooMany count)
  | unspelledKey {key value : Link} {v : Value} {m : Mapping} (hm : v.mapping? = some m)
    (h : checkKeys m.entries = .error .unspelledKey) :
    Refuses e link (.map key value) v .unspelledKey
  | notNumberKey {key value : Link} {v : Value} {keyType : Ty} {t : Text}
    (hr : e.schema.resolve key = .ok keyType) (hn : isNumeric keyType = true) :
    Refuses e link (.map key value) v (.notNumberKey t)

/-- Why one level fails, given the walk below. -/
inductive Fault (e : Encoder) (next : Visit) (type : Ty) (link : Link) (v : Value) :
    EncodeError → Prop where
  | own {err : EncodeError} (h : Refuses e link type v err) : Fault e next type link v err
  | unresolved {child : Link} {reason : Schema.Unresolved} (hc : child ∈ type.links)
    (h : e.schema.resolve child = .error reason) : Fault e next type link v (.unresolved reason)
  | below {child : Link} {childType : Ty} {w : Value} {err : EncodeError} (hc : child ∈ type.links)
    (hr : e.schema.resolve child = .ok childType) (hw : Part type v w)
    (h : (next childType child w).outcome = .error err) : Fault e next type link v err

/-! ## Primitive types -/

section Level

variable {e : Encoder} {link : Link}

theorem integerValue_refuses {kind : IntKind} {display : IntegerDisplay} {v : Value}
    {err : EncodeError} (h : integerValue kind v = .error err) :
    Refuses e link (.primitive (.integer kind display)) v err := by
  unfold integerValue at h
  split at h
  · cases h
  · cases h
  · split at h
    · cases h
    · obtain rfl := Except.error.inj h
      exact .misread (.unexpected _ (.inl rfl))
  · obtain rfl := Except.error.inj h
    exact .misread (.unexpected _ (.inl rfl))

theorem byteValue_error {v : Value} {err : EncodeError} (h : byteValue v = .error err) :
    err = .unexpected "byte" v := by
  unfold byteValue at h
  split at h
  · split at h
    · cases h
    · exact (Except.error.inj h).symm
  · exact (Except.error.inj h).symm

theorem byteItems_error {items : Items} {err : EncodeError} (h : byteItems items = .error err) :
    (∃ w ∈ items.toList, err = .unexpected "byte" w) ∨
      ∃ reason, items.opened = .error reason ∧ err = .unreadable reason := by
  cases items with
  | listed values =>
    obtain ⟨w, hw, herr⟩ := exists_error_of_mapM (f := byteValue) h
    exact .inl ⟨w, hw, byteValue_error herr⟩
  | spaced numbers =>
    rw [byteItems_spaced] at h
    obtain ⟨w, hw, herr⟩ := exists_error_of_mapM (f := byteValue) h
    exact .inl ⟨w, hw, byteValue_error herr⟩
  | sealed count reason => exact .inr ⟨reason, rfl, (Except.error.inj h).symm⟩

/-- Byte strings are refused as values of the wrong sort, or as texts under their display. -/
theorem byteString_refuses {p : Primitive} {expected : Text} {display : ByteDisplay} {v : Value}
    {err : EncodeError} (hp : p = .byteVec display ∨ ∃ length, p = .byteArray length display)
    (h : byteString expected e.config.maxBech32Length display v = .error err) :
    Refuses e link (.primitive p) v err := by
  unfold byteString at h
  split at h
  · cases h
  · cases h
  · rename_i t
    cases hparse : ByteText.parse display e.config.maxBech32Length t with
    | ok data =>
      rw [hparse] at h
      cases h
    | error reason =>
      rw [hparse] at h
      obtain rfl := Except.error.inj h
      exact .byteText hp hparse
  · split at h
    · rename_i items hi
      rcases byteItems_error h with ⟨w, hw, rfl⟩ | ⟨reason, hreason, rfl⟩
      · exact .misread (.unexpected _ (.inr ⟨items, hi, hw⟩))
      · exact .misread (.unreadable hi hreason)
    · obtain rfl := Except.error.inj h
      exact .misread (.unexpected _ (.inl rfl))

theorem floatValue_error {name : Text} {v : Value} {err : EncodeError}
    (h : floatValue name v = .error err) : err = .unexpected name v := by
  unfold floatValue at h
  split at h
  · split at h
    · cases h
    · exact (Except.error.inj h).symm
  · exact (Except.error.inj h).symm

theorem isFinite_of_floatValue {name : Text} {v : Value} {x : Double}
    (h : floatValue name v = .ok x) : x.isFinite = true := by
  unfold floatValue at h
  split at h
  · split at h
    · rename_i hx
      obtain rfl := Except.ok.inj h
      exact hx
    · cases h
  · cases h

theorem boolValue_error {v : Value} {err : EncodeError} (h : boolValue v = .error err) :
    err = .unexpected "bool" v := by
  unfold boolValue at h
  split at h
  · cases h
  · split at h
    · cases h
    · split at h
      · cases h
      · exact (Except.error.inj h).symm
  · exact (Except.error.inj h).symm

theorem count_error {n : Nat} {err : WriteError} (h : (Write.count n).outcome = .error err) :
    twoPow 32 ≤ n ∧ err = .outOfRange Write.countKind.name (.int n) := by
  by_cases hlt : n < twoPow 32
  · rw [Write.count_yields_iff.mpr ⟨hlt, rfl⟩] at h
    cases h
  · refine ⟨Nat.not_lt.mp hlt, ?_⟩
    simp only [Write.count, Write.integer, Write.integral?] at h
    split at h
    · cases h
    · exact (Except.error.inj h).symm

theorem count_failsOnly {P : EncodeError → Prop} {n : Nat} (h : n ≤ maxCount) :
    (written (Write.count n)).FailsOnly P := by
  refine .mapError fun err herr => ?_
  have hlt : n < twoPow 32 := Nat.lt_of_le_pred (twoPow_pos 32) h
  exact absurd hlt (Nat.not_lt.mpr (count_error herr).1)

theorem checkCount_error {n : Nat} {err : EncodeError} (h : checkCount n = .error err) :
    maxCount < n ∧ err = .tooMany n := by
  unfold checkCount at h
  split at h
  · rename_i hn
    exact ⟨hn, (Except.error.inj h).symm⟩
  · cases h

theorem string_failsOnly (t : Text) :
    (Write.string t).FailsOnly fun err => Refuses e link (.primitive .string) (.text t) (.write err) := by
  unfold Write.string
  split
  · rename_i hnone
    exact .fail (.surrogate hnone)
  · rename_i data hdata
    refine .bind (fun err herr => ?_) fun _ _ => .emit _
    obtain ⟨hlong, rfl⟩ := count_error herr
    exact .vastText hdata hlong

theorem primitive_failsOnly (p : Primitive) (v : Value) :
    (primitive e.config p v).FailsOnly (Refuses e link (.primitive p) v) := by
  cases p with
  | integer kind display =>
    refine .bind (.ofExcept fun err h => integerValue_refuses h) fun n hn => .mapError ?_
    unfold Write.integer
    split
    · split
      · exact .emit _
      · exact .fail (.range hn)
    · exact .fail (.range hn)
  | byteArray length display =>
    refine .bind (.ofExcept fun err h => byteString_refuses (.inr ⟨length, rfl⟩) h) fun data _ => ?_
    by_cases hlen : data.length = length
    · rw [if_pos hlen]
      exact .emit _
    · rw [if_neg hlen]
      exact .fail (.byteCount hlen)
  | byteVec display =>
    refine .bind (.ofExcept fun err h => byteString_refuses (.inl rfl) h) fun data _ => ?_
    refine .bind (.ofExcept fun err h => ?_) fun _ hcheck => ?_
    · obtain ⟨hmany, rfl⟩ := checkCount_error h
      exact .tooManyBytes hmany
    · exact .bind (count_failsOnly (checkCount_eq_ok_iff.mp hcheck)) fun _ _ => .emit _
  | float32 =>
    refine .bind (.ofExcept fun err h => ?_) fun x hx => ?_
    · obtain rfl := floatValue_error h
      exact .misread (.unexpected _ (.inl rfl))
    · exact .of_yields (written_yields_iff.mpr
        (Write.single_yields_iff.mpr ⟨isFinite_of_floatValue hx, rfl⟩))
  | float64 =>
    refine .bind (.ofExcept fun err h => ?_) fun x hx => ?_
    · obtain rfl := floatValue_error h
      exact .misread (.unexpected _ (.inl rfl))
    · exact .of_yields (written_yields_iff.mpr
        (Write.double_yields_iff.mpr ⟨isFinite_of_floatValue hx, rfl⟩))
  | string =>
    cases v with
    | text t => exact .mapError (string_failsOnly t)
    | _ => exact .fail (.misread (.unexpected _ (.inl rfl)))
  | boolean =>
    refine .bind (.ofExcept fun err h => ?_) fun b _ => .emit _
    obtain rfl := boolValue_error h
    exact .misread (.unexpected _ (.inl rfl))
  | skip length => exact .pure ()

/-! ## Container types -/

variable {next : Visit}

theorem resolve_bind_failsOnly {type : Ty} {v : Value} {child : Link} (hc : child ∈ type.links)
    {α : Type} {f : Ty → Output EncodeError α}
    (hf : ∀ childType, e.schema.resolve child = .ok childType →
      (f childType).FailsOnly (Fault e next type link v)) :
    (Output.ofExcept ((e.schema.resolve child).mapError .unresolved) >>= f).FailsOnly
      (Fault e next type link v) := by
  refine .bind (.ofExcept fun err h => ?_) fun childType h => ?_
  · cases hr : e.schema.resolve child with
    | ok childType =>
      rw [hr] at h
      cases h
    | error reason =>
      rw [hr] at h
      obtain rfl := Except.error.inj h
      exact .unresolved hc hr
  · exact hf childType (Output.mapError_eq_ok_iff.mp h)

theorem follow_failsOnly {type : Ty} {v w : Value} {child : Link} (hc : child ∈ type.links)
    (hw : Part type v w) : (follow e.schema next child w).FailsOnly (Fault e next type link v) :=
  resolve_bind_failsOnly hc fun _ hr _ herr => .below hc hr hw herr

theorem counted_failsOnly {P : EncodeError → Prop} {count : Except Uncountable Nat}
    (h : ∀ reason, count = .error reason → P (.uncountable reason)) :
    (counted count).FailsOnly P := by
  refine .ofExcept fun err herr => ?_
  cases count with
  | ok n => cases herr
  | error reason =>
    obtain rfl := Except.error.inj herr
    exact h reason rfl

theorem count_of_counted {count : Except Uncountable Nat} {n : Nat}
    (h : (counted count).outcome = .ok n) : count = .ok n := Output.mapError_eq_ok_iff.mp h

theorem selection_refuses {name : Text} {variants : List Variant} {hideTag : Bool} {v : Value}
    {err : EncodeError} (h : selection name v = .error err) :
    Refuses e link (.enumeration name variants hideTag) v err := by
  unfold selection at h
  split at h
  · cases h
  · split at h
    · obtain rfl := Except.error.inj h
      exact .misread (.unexpected _ (.inl rfl))
    · rename_i m hm
      split at h
      · rename_i reason hcount
        obtain rfl := Except.error.inj h
        exact .misread (.vastEntries hm hcount)
      · rename_i hcount
        split at h
        · cases h
        · rename_i hentries
          obtain rfl := Except.error.inj h
          exact .noVariant hm hcount hentries
      · rename_i count hcount hne
        obtain rfl := Except.error.inj h
        exact .notSingleVariant hm hne hcount

/-- The payload that is selected is nothing, or the value of an entry. -/
theorem part_of_selection {name : Text} {type : Ty} {v inner : Value} {key : Key}
    (h : selection name v = .ok (key, inner)) : inner.isNull = true ∨ Part type v inner := by
  unfold selection at h
  split at h
  · obtain ⟨rfl, rfl⟩ := Prod.mk.inj (Except.ok.inj h)
    exact .inl rfl
  · split at h
    · cases h
    · rename_i m hm
      split at h
      · cases h
      · split at h
        · rename_i entry rest hentries
          obtain rfl := Except.ok.inj h
          exact .inr (.entry hm (hentries ▸ List.mem_cons_self))
        · cases h
      · cases h

theorem mem_of_variantOf? {table : NameTable} {variants : List Variant} {key : Key}
    {variant : Variant} (h : variantOf? table variants key = some variant) : variant ∈ variants := by
  unfold variantOf? at h
  split at h
  · obtain ⟨position, _, hget⟩ := Option.bind_eq_some_iff.mp h
    exact List.mem_of_getElem? hget
  · cases h

theorem enumeration_failsOnly (name : Text) (variants : List Variant) (hideTag : Bool)
    (v : Value) :
    (enumeration e.schema next name variants link v).FailsOnly
      (Fault e next (.enumeration name variants hideTag) link v) := by
  refine .bind (.ofExcept fun err h => .own (selection_refuses h)) ?_
  rintro ⟨key, inner⟩ hselected
  dsimp only
  cases htable : e.schema.table? link with
  | none => exact .fail (.own (.noNames name rfl htable))
  | some table =>
    dsimp only
    cases hvariant : variantOf? table variants key with
    | none => exact .fail (.own (.unknownVariant hselected))
    | some variant =>
      have hmem := mem_of_variantOf? hvariant
      refine .bind (.emit _) fun _ _ => ?_
      unfold payload
      cases hpayload : variant.payload with
      | none =>
        dsimp only
        split
        · exact .pure ()
        · exact .fail (.own (.unusedPayload hselected))
      | some child =>
        have hc : child ∈ (Ty.enumeration name variants hideTag).links :=
          List.mem_filterMap.mpr ⟨variant, hmem, hpayload⟩
        dsimp only
        split
        · exact .fail (.own (.missingPayload hmem))
        · rename_i hnull
          rcases part_of_selection hselected with hnull' | hpart
          · exact absurd hnull' hnull
          · exact follow_failsOnly hc hpart

theorem fieldsOf_failsOnly {name : Text} {fields : List NamedField} {template : Option Text}
    {peekable : Bool} {v : Value} {m : Mapping} (hm : v.mapping? = some m)
    {rest : List NamedField} (hfields : rest ⊆ fields) (names : List Text)
    {entries : List (Key × Value)} (hentries : entries ⊆ m.entries) :
    (fieldsOf e.schema next name rest names entries).FailsOnly
      (Fault e next (.struct name fields template peekable) link v) := by
  induction rest generalizing names entries with
  | nil => exact .pure _
  | cons field rest ih =>
    obtain ⟨hfield, hrest⟩ := List.cons_subset.mp hfields
    cases names with
    | nil => exact .pure _
    | cons first names =>
      unfold fieldsOf
      cases htaken : takeEntry first entries with
      | none => exact .fail (.own (.missingField hfield))
      | some r =>
        obtain ⟨w, others⟩ := r
        have hperm := perm_of_takeEntry htaken
        have hw : ((.text first, w) : Key × Value) ∈ m.entries :=
          hentries (hperm.mem_iff.mpr List.mem_cons_self)
        have hothers : others ⊆ m.entries := fun entry hentry =>
          hentries (hperm.mem_iff.mpr (List.mem_cons_of_mem _ hentry))
        refine .bind (follow_failsOnly ?_ (.entry hm hw)) fun _ _ => ih hrest names hothers
        exact List.mem_map_of_mem hfield

theorem subset_of_fieldsOf {name : Text} {fields : List NamedField} {names : List Text}
    {entries rest : List (Key × Value)}
    (h : (fieldsOf e.schema next name fields names entries).outcome = .ok rest) :
    rest ⊆ entries := by
  induction fields generalizing names entries with
  | nil =>
    obtain rfl := Except.ok.inj h
    exact List.Subset.refl _
  | cons field fields ih =>
    cases names with
    | nil =>
      obtain rfl := Except.ok.inj h
      exact List.Subset.refl _
    | cons first names =>
      unfold fieldsOf at h
      cases htaken : takeEntry first entries with
      | none =>
        rw [htaken] at h
        cases h
      | some r =>
        obtain ⟨w, others⟩ := r
        rw [htaken] at h
        have hothers : others ⊆ entries := fun entry hentry =>
          (perm_of_takeEntry htaken).mem_iff.mpr (List.mem_cons_of_mem _ hentry)
        exact List.Subset.trans (ih (Output.outcome_of_bind h)) hothers

theorem struct_failsOnly (name : Text) (fields : List NamedField) (template : Option Text)
    (peekable : Bool) (v : Value) :
    (struct e.schema next name fields link v).FailsOnly
      (Fault e next (.struct name fields template peekable) link v) := by
  unfold struct
  cases hm : v.mapping? with
  | none => exact .fail (.own (.misread (.unexpected _ (.inl rfl))))
  | some m =>
    dsimp only
    cases htable : e.schema.table? link with
    | none => exact .fail (.own (.noNames name rfl htable))
    | some table =>
      dsimp only
      split
      · rename_i hlt
        exact .fail (.own (.tooFewNames htable hlt))
      · refine .bind (fieldsOf_failsOnly hm (List.Subset.refl _) _ (List.Subset.refl _))
          fun rest hrest => ?_
        split
        · exact .pure ()
        · exact .fail (.own (.unusedEntries hm (subset_of_fieldsOf hrest)))

theorem positions_failsOnly {fields : List UnnamedField} {template : Option Text} {peekable : Bool}
    {v : Value} {items : Items} (hi : v.items? = some items) {rest : List UnnamedField}
    (hfields : rest ⊆ fields) {ws : List Value} (hws : ws ⊆ items.toList) :
    (positions e.schema next rest ws).FailsOnly
      (Fault e next (.tuple fields template peekable) link v) := by
  induction rest generalizing ws with
  | nil => exact .pure ()
  | cons field rest ih =>
    obtain ⟨hfield, hrest⟩ := List.cons_subset.mp hfields
    cases ws with
    | nil => exact .pure ()
    | cons w ws =>
      obtain ⟨hw, hws⟩ := List.cons_subset.mp hws
      refine .bind (follow_failsOnly ?_ (.item hi hw)) fun _ _ => ih hrest hws
      exact List.mem_map_of_mem hfield

theorem opened_failsOnly {type : Ty} {v : Value} {items : Items} (hi : v.items? = some items) :
    (Output.ofExcept (items.opened.mapError EncodeError.unreadable)).FailsOnly
      (Fault e next type link v) :=
  .ofExcept_mapError fun _ h => .own (.misread (.unreadable hi h))

theorem tupleItems_failsOnly {fields : List UnnamedField} (hne : fields.length ≠ 1)
    (template : Option Text) (peekable : Bool) (v : Value) :
    (tupleItems e.schema next fields v).FailsOnly
      (Fault e next (.tuple fields template peekable) link v) := by
  unfold tupleItems
  cases hi : v.items? with
  | none => exact .fail (.own (.misread (.unexpected _ (.inl rfl))))
  | some items =>
    refine .bind (counted_failsOnly fun _ h => .own (.misread (.vastItems hi h))) fun count _ => ?_
    split
    · refine .bind (opened_failsOnly hi) fun values hvalues => ?_
      have hopened := Items.toList_of_opened (Output.mapError_eq_ok_iff.mp hvalues)
      exact positions_failsOnly hi (List.Subset.refl _) (hopened ▸ List.Subset.refl _)
    · rename_i hcount
      exact .fail (.own (.fieldCount hne hcount))

theorem tuple_failsOnly (fields : List UnnamedField) (template : Option Text) (peekable : Bool)
    (v : Value) :
    (tuple e.schema next fields v).FailsOnly
      (Fault e next (.tuple fields template peekable) link v) := by
  match fields with
  | [] =>
    have hne : ([] : List UnnamedField).length ≠ 1 := Nat.zero_ne_one
    exact tupleItems_failsOnly hne template peekable v
  | [field] => exact follow_failsOnly List.mem_cons_self (.same v rfl)
  | first :: second :: rest =>
    have hne : (first :: second :: rest).length ≠ 1 := by
      simp only [List.length_cons]
      omega
    exact tupleItems_failsOnly hne template peekable v

theorem option_failsOnly (item : Link) (v : Value) :
    (option e.schema next item v).FailsOnly (Fault e next (.option item) link v) := by
  unfold option
  split
  · exact .emit _
  · exact .bind (.emit _) fun _ _ => follow_failsOnly List.mem_cons_self (.same v rfl)

theorem items_failsOnly {type childType : Ty} {v : Value} {items : Items} {child : Link}
    (hi : v.items? = some items) (hc : child ∈ type.links)
    (hr : e.schema.resolve child = .ok childType) :
    (Write.forItems .unreadable items (next childType child)).FailsOnly
      (Fault e next type link v) :=
  .forItems (fun _ h => .own (.misread (.unreadable hi h)))
    fun _ hw _ herr => .below hc hr (.item hi hw) herr

theorem array_failsOnly (length : Nat) (item : Link) (v : Value) :
    (array e.schema next length item v).FailsOnly (Fault e next (.array length item) link v) := by
  unfold array
  cases hi : v.items? with
  | none => exact .fail (.own (.misread (.unexpected _ (.inl rfl))))
  | some items =>
    refine .bind (counted_failsOnly fun _ h => .own (.misread (.vastItems hi h))) fun count _ => ?_
    split
    · have hc : item ∈ (Ty.array length item).links := List.mem_cons_self
      exact resolve_bind_failsOnly hc fun _ hr => items_failsOnly hi hc hr
    · rename_i hcount
      exact .fail (.own (.itemCount hcount))

theorem vec_failsOnly (item : Link) (v : Value) :
    (vec e.schema next item v).FailsOnly (Fault e next (.vec item) link v) := by
  unfold vec
  cases hi : v.items? with
  | none => exact .fail (.own (.misread (.unexpected _ (.inl rfl))))
  | some items =>
    refine .bind (counted_failsOnly fun _ h => .own (.misread (.vastItems hi h))) fun count _ => ?_
    refine .bind (.ofExcept fun err h => ?_) fun _ hcheck => ?_
    · obtain ⟨hmany, rfl⟩ := checkCount_error h
      exact .own (.tooManyItems hmany)
    · have hc : item ∈ (Ty.vec item).links := List.mem_cons_self
      refine resolve_bind_failsOnly hc fun _ hr => ?_
      exact .bind (count_failsOnly (checkCount_eq_ok_iff.mp hcheck)) fun _ _ =>
        items_failsOnly hi hc hr

theorem keyValue_refuses {key value : Link} {v : Value} {keyType : Ty} {t : Text}
    {err : EncodeError} (hr : e.schema.resolve key = .ok keyType)
    (h : keyValue keyType t = .error err) : Refuses e link (.map key value) v err := by
  unfold keyValue at h
  split at h
  · rename_i hnumeric
    split at h
    · cases h
    · obtain rfl := Except.error.inj h
      exact .notNumberKey hr hnumeric
  · cases h

theorem checkKeys_error {entries : List (Key × Value)} {err : EncodeError}
    (h : checkKeys entries = .error err) : err = .unspelledKey := by
  unfold checkKeys at h
  split at h
  · cases h
  · exact (Except.error.inj h).symm

theorem exists_of_mem_sortedEntries {entries : List (Key × Value)} {text : Text} {w : Value}
    (h : (text, w) ∈ sortedEntries entries) : ∃ k, (k, w) ∈ entries ∧ keyText k = text := by
  obtain ⟨⟨k, _⟩, hmem, heq⟩ := List.mem_map.mp (List.mem_mergeSort.mp h)
  obtain ⟨htext, rfl⟩ := Prod.mk.inj heq
  exact ⟨k, hmem, htext⟩

/-- A mapping never yields more entries than it claims. -/
theorem length_entries_le {v : Value} {m : Mapping} {n : Nat} (hm : v.mapping? = some m)
    (hn : m.count = .ok n) : m.entries.length ≤ n := by
  cases v with
  | map entries =>
    obtain rfl := Option.some.inj hm
    exact Nat.le_of_eq (Except.ok.inj hn)
  | vastMap count =>
    obtain rfl := Option.some.inj hm
    exact Nat.zero_le n
  | _ => cases hm

theorem map_failsOnly (key value : Link) (v : Value) :
    (map e.schema next key value v).FailsOnly (Fault e next (.map key value) link v) := by
  unfold map
  cases hm : v.mapping? with
  | none => exact .fail (.own (.misread (.unexpected _ (.inl rfl))))
  | some m =>
    have hkey : key ∈ (Ty.map key value).links := List.mem_cons_self
    have hvalue : value ∈ (Ty.map key value).links := List.mem_cons_of_mem _ List.mem_cons_self
    refine .bind (counted_failsOnly fun _ h => .own (.misread (.vastEntries hm h)))
      fun count hcount => ?_
    refine .bind (.ofExcept fun err h => ?_) fun _ hcheck => ?_
    · obtain ⟨hmany, rfl⟩ := checkCount_error h
      exact .own (.tooManyEntries hmany)
    refine resolve_bind_failsOnly hkey fun keyType hrk => ?_
    refine resolve_bind_failsOnly hvalue fun valueType hrv => ?_
    refine .bind (.ofExcept fun err h => ?_) fun _ _ => ?_
    · obtain rfl := checkKeys_error h
      exact .own (.unspelledKey hm h)
    refine .bind ?_ fun _ _ => .forEach fun entry hentry => ?_
    · have hle := length_entries_le hm (count_of_counted hcount)
      rw [length_sortedEntries]
      exact count_failsOnly (Nat.le_trans hle (checkCount_eq_ok_iff.mp hcheck))
    · obtain ⟨k, hmem, htext⟩ := exists_of_mem_sortedEntries hentry
      refine .bind (.ofExcept fun err h => .own (keyValue_refuses hrk h)) fun kv hkv => ?_
      have hkv : keyValue keyType (keyText k) = .ok kv := htext ▸ hkv
      refine .bind (fun err herr => .below hkey hrk (.key hm hmem hkv) herr) fun _ _ => ?_
      exact fun err herr => .below hvalue hrv (.entry hm hmem) herr

/-- One level of the walk, one case for each type constructor. -/
theorem step_failsOnly (type : Ty) (v : Value) :
    (step e next type link v).FailsOnly (Fault e next type link v) := by
  cases type with
  | primitive p => exact (primitive_failsOnly p v).mono fun _ h => .own h
  | enumeration name variants hideTag => exact enumeration_failsOnly name variants hideTag v
  | struct name fields template peekable => exact struct_failsOnly name fields template peekable v
  | tuple fields template peekable => exact tuple_failsOnly fields template peekable v
  | option item => exact option_failsOnly item v
  | array length item => exact array_failsOnly length item v
  | vec item => exact vec_failsOnly item v
  | map key value => exact map_failsOnly key value v

end Level

/-! ## The whole walk -/

/-- A property of positions (the levels that are left, type, link and value) that one level hands
down to the next, and errors to which it leads: what a position with the property may refuse, a
component without a type, and being too deep. -/
structure Invariant (e : Encoder) (I : Nat → Ty → Link → Value → Prop) (P : EncodeError → Prop) :
    Prop where
  tooDeep : ∀ {type : Ty} {link : Link} {v : Value}, I 0 type link v →
    P (.tooDeep e.config.maxDepth)
  own : ∀ {levels : Nat} {type : Ty} {link : Link} {v : Value} {err : EncodeError},
    I (levels + 1) type link v → Refuses e link type v err → P err
  unresolved : ∀ {levels : Nat} {type : Ty} {link child : Link} {v : Value}
    {reason : Schema.Unresolved}, I (levels + 1) type link v → child ∈ type.links →
    e.schema.resolve child = .error reason → P (.unresolved reason)
  below : ∀ {levels : Nat} {type childType : Ty} {link child : Link} {v w : Value},
    I (levels + 1) type link v → child ∈ type.links → e.schema.resolve child = .ok childType →
    Part type v w → I levels childType child w

/-- A walk from a position with the property ends well or with one of its errors. -/
theorem Invariant.visit_failsOnly {e : Encoder} {I : Nat → Ty → Link → Value → Prop}
    {P : EncodeError → Prop} (h : Invariant e I P) {levels : Nat} {type : Ty} {link : Link}
    {v : Value} (hI : I levels type link v) : (visit e levels type link v).FailsOnly P := by
  induction levels generalizing type link v with
  | zero => exact .fail (h.tooDeep hI)
  | succ levels ih =>
    refine (step_failsOnly type v).mono fun err hfault => ?_
    cases hfault with
    | own hown => exact h.own hI hown
    | unresolved hc hr => exact h.unresolved hI hc hr
    | below hc hr hw herr => exact ih (h.below hI hc hr hw) err herr

end Encode

/-- An encoding fails because the root is not in the type table, or it is one against an entry of the
table. -/
theorem Encoder.encodeWithin_error_cases {e : Encoder} {levels : Nat} {index : Int} {v : Value}
    {err : EncodeError} (herr : e.encodeWithin levels (.int index) v = .error err) :
    err = .invalidRoot (.int index) ∨ ∃ type, e.schema.resolve (.byIndex index.toNat) = .ok type ∧
      e.encodeWithin levels (.int index.toNat) v = .error err := by
  cases hposition : e.schema.rootPosition? (.int index) with
  | none =>
    rw [encodeWithin, hposition] at herr
    exact .inl (Except.error.inj herr).symm
  | some position =>
    obtain rfl : index = position := Value.int.inj (Schema.eq_int_of_rootPosition? hposition)
    cases htype : e.schema.types[position]? with
    | none =>
      rw [encodeWithin_int, htype] at herr
      exact .inl (Except.error.inj herr).symm
    | some type => exact .inr ⟨type, Schema.resolve_byIndex_iff.mpr htype, herr⟩

/-- An encoding against an entry of the type table ends well or with one of the errors of a property
that the entry has. -/
theorem Encoder.encodeWithin_fails {e : Encoder} {I : Nat → Ty → Link → Value → Prop}
    {P : EncodeError → Prop} (h : Encode.Invariant e I P) {levels index : Nat} {type : Ty}
    (hr : e.schema.resolve (.byIndex index) = .ok type) {v : Value}
    (hI : I levels type (.byIndex index) v) {err : EncodeError}
    (herr : e.encodeWithin levels (.int index) v = .error err) : P err := by
  rw [encodeWithin_int, Schema.resolve_byIndex_iff.mp hr] at herr
  exact h.visit_failsOnly hI err (Output.result_eq_error_iff.mp herr)

end BorshWire
