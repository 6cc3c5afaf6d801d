import BorshWire.Encode.Walk
import BorshWire.Proofs.Simulation.Output
import Mathlib.Data.List.Infix

/-!
# Positions of an encoded value

`Stands` tells which parts of a value are written against which types: one constructor of `HandsDown`
for each way in which a level hands a part of its value down. `Encoder.writes_of_stands`: of a value
that is encoded every position is written, and its bytes stand among those of the whole.
-/

namespace BorshWire

/-! ## Steps among other steps -/

namespace Output

variable {ε α β γ : Type}

/-- If the first step ends well, then so does the second one, and the bytes of the second stand
among those of the first. -/
def Includes (x : Output ε α) (y : Output ε β) : Prop :=
  ∀ bytes a, x.Yields bytes a → ∃ own b, y.Yields own b ∧ own <:+: bytes

namespace Includes

variable {x : Output ε α} {y : Output ε β} {f : α → Output ε γ}

theorem fail {e : ε} : Includes (Output.fail e : Output ε α) y :=
  fun _ _ h => absurd h Output.not_yields_fail

theorem self (x : Output ε α) : Includes x x := fun bytes a h => ⟨bytes, a, h, List.infix_rfl⟩

theorem first (h : Includes x y) : Includes (x >>= f) y := by
  intro bytes c hbytes
  obtain ⟨front, a, back, hx, -, rfl⟩ := Output.yields_bind_iff.mp hbytes
  obtain ⟨own, b, hy, hown⟩ := h front a hx
  exact ⟨own, b, hy, hown.trans (List.infix_append' [] front back)⟩

theorem after (h : ∀ a, Includes (f a) y) : Includes (x >>= f) y := by
  intro bytes c hbytes
  obtain ⟨front, a, back, -, hf, rfl⟩ := Output.yields_bind_iff.mp hbytes
  obtain ⟨own, b, hy, hown⟩ := h a back c hf
  exact ⟨own, b, hy, hown.trans (List.suffix_append front back).isInfix⟩

theorem ofExcept {r : Except ε α} (h : ∀ a, r = .ok a → Includes (f a) y) :
    Includes (Output.ofExcept r >>= f) y := by
  intro bytes c hbytes
  obtain ⟨a, hr, hf⟩ := Output.yields_ofExcept_bind_iff.mp hbytes
  exact h a hr bytes c hf

theorem forEach {g : α → Output ε Unit} {a : α} {items : List α} (ha : a ∈ items)
    (h : Includes (g a) y) : Includes (Output.forEach g items) y := by
  induction items with
  | nil => cases ha
  | cons other rest ih =>
    rcases List.mem_cons.mp ha with rfl | ha
    · exact h.first
    · exact .after fun _ => ih ha

theorem forItems {refuse : Unreadable → ε} {g : Value → Output ε Unit} {v : Value} {items : Items}
    (hv : v ∈ items.toList) (h : Includes (g v) y) :
    Includes (Write.forItems refuse items g) y := by
  rw [Write.forItems_of_opened (Items.opened_of_mem hv)]
  exact .forEach hv h

end Includes

end Output

namespace Encode

/-! ## What a level hands down -/

/-- A field of a struct and the value of the entry that is taken for it. -/
inductive Takes : List NamedField → List Text → List (Key × Value) → NamedField → Value → Prop where
  | first {field : NamedField} {fields : List NamedField} {name : Text} {names : List Text}
    {entries rest : List (Key × Value)} {v : Value} (h : takeEntry name entries = some (v, rest)) :
    Takes (field :: fields) (name :: names) entries field v
  | later {other field : NamedField} {fields : List NamedField} {name : Text} {names : List Text}
    {entries rest : List (Key × Value)} {v w : Value}
    (h : takeEntry name entries = some (w, rest)) (hrest : Takes fields names rest field v) :
    Takes (other :: fields) (name :: names) entries field v

/-- The parts of a value that a level of the walk hands down, and the links along which it does. -/
inductive HandsDown (s : Schema) : Ty → Link → Value → Link → Value → Prop where
  | payload {name : Text} {variants : List Variant} {hideTag : Bool} {link child : Link}
    {v inner : Value} {key : Key} {table : NameTable} {variant : Variant}
    (hselection : selection name v = .ok (key, inner)) (htable : s.table? link = some table)
    (hvariant : variantOf? table variants key = some variant)
    (hpayload : variant.payload = some child) :
    HandsDown s (.enumeration name variants hideTag) link v child inner
  | field {name : Text} {fields : List NamedField} {template : Option Text} {peekable : Bool}
    {link : Link} {v w : Value} {m : Mapping} {table : NameTable} {field : NamedField}
    (hm : v.mapping? = some m) (htable : s.table? link = some table)
    (hw : Takes fields table.names m.entries field w) :
    HandsDown s (.struct name fields template peekable) link v field.type w
  | single {field : UnnamedField} {template : Option Text} {peekable : Bool} {link : Link}
    {v : Value} : HandsDown s (.tuple [field] template peekable) link v field.type v
  | position {fields : List UnnamedField} {template : Option Text} {peekable : Bool} {link : Link}
    {v w : Value} {items : Items} {field : UnnamedField} (hlength : fields.length ≠ 1)
    (hi : v.items? = some items) (hw : (field, w) ∈ fields.zip items.toList) :
    HandsDown s (.tuple fields template peekable) link v field.type w
  | present {item link : Link} {v : Value} (hv : v.isNull = false) :
    HandsDown s (.option item) link v item v
  | arrayItem {length : Nat} {item link : Link} {v w : Value} {items : Items}
    (hi : v.items? = some items) (hw : w ∈ items.toList) :
    HandsDown s (.array length item) link v item w
  | vecItem {item link : Link} {v w : Value} {items : Items} (hi : v.items? = some items)
    (hw : w ∈ items.toList) : HandsDown s (.vec item) link v item w
  | key {key value link : Link} {v k : Value} {m : Mapping} {entry : Key × Value} {keyType : Ty}
    (hm : v.mapping? = some m) (he : entry ∈ m.entries) (hr : s.resolve key = .ok keyType)
    (hk : keyValue keyType (keyText entry.1) = .ok k) : HandsDown s (.map key value) link v key k
  | value {key value link : Link} {v : Value} {m : Mapping} {entry : Key × Value}
    (hm : v.mapping? = some m) (he : entry ∈ m.entries) :
    HandsDown s (.map key value) link v value entry.2

open Output (Includes)

section Level

variable {s : Schema} {next : Visit}

theorem payload_includes {name : Text} {variant : Variant} {child : Link} {inner : Value}
    (h : variant.payload = some child) :
    Includes (payload s next name variant inner) (follow s next child inner) := by
  unfold payload
  rw [h]
  dsimp only
  split
  · exact .fail
  · exact .self _

theorem enumeration_includes {name : Text} {variants : List Variant} {link child : Link}
    {v inner : Value} {key : Key} {table : NameTable} {variant : Variant}
    (hselection : selection name v = .ok (key, inner)) (htable : s.table? link = some table)
    (hvariant : variantOf? table variants key = some variant)
    (hpayload : variant.payload = some child) :
    Includes (enumeration s next name variants link v) (follow s next child inner) := by
  refine .ofExcept fun selected h => ?_
  obtain rfl := Except.ok.inj (h.symm.trans hselection)
  simp only [htable, hvariant]
  exact .after fun _ => payload_includes hpayload

theorem fieldsOf_includes {name : Text} {fields : List NamedField} {names : List Text}
    {entries : List (Key × Value)} {field : NamedField} {w : Value}
    (h : Takes fields names entries field w) :
    Includes (fieldsOf s next name fields names entries) (follow s next field.type w) := by
  induction h with
  | first h =>
    rw [fieldsOf, h]
    exact (Includes.self _).first
  | later h _ ih =>
    rw [fieldsOf, h]
    exact .after fun _ => ih

theorem struct_includes {name : Text} {fields : List NamedField} {link : Link} {v w : Value}
    {m : Mapping} {table : NameTable} {field : NamedField} (hm : v.mapping? = some m)
    (htable : s.table? link = some table) (hw : Takes fields table.names m.entries field w) :
    Includes (struct s next name fields link v) (follow s next field.type w) := by
  unfold struct
  simp only [hm, htable]
  split
  · exact .fail
  · exact (fieldsOf_includes hw).first

theorem positions_includes {fields : List UnnamedField} {vs : List Value} {field : UnnamedField}
    {w : Value} (h : (field, w) ∈ fields.zip vs) :
    Includes (positions s next fields vs) (follow s next field.type w) := by
  induction fields generalizing vs with
  | nil => cases h
  | cons other fields ih =>
    cases vs with
    | nil => cases h
    | cons v vs =>
      rw [List.zip_cons_cons] at h
      rcases List.mem_cons.mp h with heq | h
      · obtain ⟨rfl, rfl⟩ := Prod.mk.inj heq
        exact (Includes.self _).first
      · exact .after fun _ => ih h

theorem tuple_includes {fields : List UnnamedField} {v w : Value} {items : Items}
    {field : UnnamedField} (hlength : fields.length ≠ 1) (hi : v.items? = some items)
    (hw : (field, w) ∈ fields.zip items.toList) :
    Includes (tuple s next fields v) (follow s next field.type w) := by
  have hitems : tuple s next fields v = tupleItems s next fields v := by
    match fields, hlength with
    | [], _ => rfl
    | [_], h => exact absurd rfl h
    | _ :: _ :: _, _ => rfl
  rw [hitems, tupleItems]
  simp only [hi]
  refine .ofExcept fun count _ => ?_
  split
  · refine .ofExcept fun values hvalues => ?_
    rw [Items.toList_of_opened (Output.mapError_eq_ok_iff.mp hvalues)] at hw
    exact positions_includes hw
  · exact .fail

theorem option_includes {item : Link} {v : Value} (hv : v.isNull = false) :
    Includes (option s next item v) (follow s next item v) := by
  rw [option, if_neg (by simp [hv])]
  exact .after fun _ => .self _

theorem forItems_includes {item : Link} {type : Ty} (hr : s.resolve item = .ok type) {items : Items}
    {w : Value} (hw : w ∈ items.toList) :
    Includes (Write.forItems .unreadable items (next type item)) (follow s next item w) := by
  refine .forItems hw ?_
  rw [follow_of_resolve hr]
  exact .self _

theorem array_includes {length : Nat} {item : Link} {v w : Value} {items : Items}
    (hi : v.items? = some items) (hw : w ∈ items.toList) :
    Includes (array s next length item v) (follow s next item w) := by
  unfold array
  simp only [hi]
  refine .ofExcept fun count _ => ?_
  split
  · exact .ofExcept fun type hr => forItems_includes (Output.mapError_eq_ok_iff.mp hr) hw
  · exact .fail

theorem vec_includes {item : Link} {v w : Value} {items : Items} (hi : v.items? = some items)
    (hw : w ∈ items.toList) : Includes (vec s next item v) (follow s next item w) := by
  unfold vec
  simp only [hi]
  refine .ofExcept fun count _ => .ofExcept fun _ _ => .ofExcept fun type hr => .after fun _ => ?_
  exact forItems_includes (Output.mapError_eq_ok_iff.mp hr) hw

/-- What stands in the writing of an entry stands in that of the map. -/
theorem map_includes {β : Type} {y : Output EncodeError β} {key value : Link} {v : Value}
    {m : Mapping} {entry : Key × Value} (hm : v.mapping? = some m) (he : entry ∈ m.entries)
    (h : ∀ keyType k, s.resolve key = .ok keyType → keyValue keyType (keyText entry.1) = .ok k →
      Includes (next keyType key k >>= fun _ => follow s next value entry.2) y) :
    Includes (map s next key value v) y := by
  have hsorted : (keyText entry.1, entry.2) ∈ sortedEntries m.entries :=
    List.mem_mergeSort.mpr (List.mem_map_of_mem he)
  unfold map
  simp only [hm]
  refine .ofExcept fun count _ => .ofExcept fun _ _ => .ofExcept fun keyType hkey => ?_
  refine .ofExcept fun valueType hvalue => .ofExcept fun _ _ => .after fun _ => ?_
  refine .forEach hsorted ?_
  refine .ofExcept fun k hk => ?_
  rw [← follow_of_resolve (Output.mapError_eq_ok_iff.mp hvalue) next entry.2]
  exact h keyType k (Output.mapError_eq_ok_iff.mp hkey) hk

theorem key_includes {key value : Link} {v k : Value} {m : Mapping} {entry : Key × Value}
    {keyType : Ty} (hm : v.mapping? = some m) (he : entry ∈ m.entries)
    (hr : s.resolve key = .ok keyType) (hk : keyValue keyType (keyText entry.1) = .ok k) :
    Includes (map s next key value v) (follow s next key k) := by
  refine map_includes hm he fun keyType' k' hr' hk' => ?_
  obtain rfl := Schema.eq_of_resolve hr hr'
  obtain rfl := Except.ok.inj (hk.symm.trans hk')
  rw [follow_of_resolve hr]
  exact (Includes.self _).first

/-- A level includes the walk below at whatever it hands down, one case for each way to do so. -/
theorem step_includes {e : Encoder} {type : Ty} {link child : Link} {v w : Value}
    (h : HandsDown e.schema type link v child w) :
    Includes (step e next type link v) (follow e.schema next child w) := by
  cases h with
  | payload hselection htable hvariant hpayload =>
    exact enumeration_includes hselection htable hvariant hpayload
  | field hm htable hw => exact struct_includes hm htable hw
  | single => exact .self _
  | position hlength hi hw => exact tuple_includes hlength hi hw
  | present hv => exact option_includes hv
  | arrayItem hi hw => exact array_includes hi hw
  | vecItem hi hw => exact vec_includes hi hw
  | key hm he hr hk => exact key_includes hm he hr hk
  | value hm he => exact map_includes hm he fun _ _ _ _ => .after fun _ => .self _

end Level

/-- The text of a key stands for a value of the key type, if the map is written. -/
theorem exists_keyValue {e : Encoder} {levels : Nat} {key value link : Link} {v : Value}
    {m : Mapping} {entry : Key × Value} {keyType : Ty} {bytes : List UInt8}
    (h : (visit e levels (.map key value) link v).Yields bytes ()) (hm : v.mapping? = some m)
    (he : entry ∈ m.entries) (hr : e.schema.resolve key = .ok keyType) :
    ∃ k, keyValue keyType (keyText entry.1) = .ok k := by
  cases levels with
  | zero => exact absurd h Output.not_yields_fail
  | succ levels =>
    have hincludes : Includes (map e.schema (visit e levels) key value v)
        (Output.ofExcept (keyValue keyType (keyText entry.1))) := by
      refine map_includes hm he fun keyType' k hr' hk => ?_
      obtain rfl := Schema.eq_of_resolve hr hr'
      exact fun bytes _ _ => ⟨[], k, Output.yields_ofExcept_iff.mpr ⟨rfl, hk⟩, List.nil_infix⟩
    obtain ⟨_, k, hk, _⟩ := hincludes bytes () h
    exact ⟨k, (Output.yields_ofExcept_iff.mp hk).2⟩

/-! ## Whole values -/

/-- A value stands at a position of the value that is encoded against a root type: at the root, or
where it is handed down. -/
inductive Stands (s : Schema) (index v : Value) : Ty → Link → Value → Prop where
  | root {position : Nat} {type : Ty} (hindex : s.rootPosition? index = some position)
    (htype : s.types[position]? = some type) : Stands s index v type (.byIndex position) v
  | down {type childType : Ty} {link child : Link} {w x : Value} (h : Stands s index v type link w)
    (hdown : HandsDown s type link w child x) (hr : s.resolve child = .ok childType) :
    Stands s index v childType child x

/-- These bytes are written for a value at a type that was reached through a link, as a part of the
bytes of the whole. -/
structure Writes (e : Encoder) (bytes : List UInt8) (type : Ty) (link : Link) (v : Value)
    (own : List UInt8) : Prop where
  written : ∃ levels, (visit e levels type link v).Yields own ()
  within : own <:+: bytes

theorem Writes.below {e : Encoder} {bytes own : List UInt8} {type childType : Ty}
    {link child : Link} {v w : Value} (h : Writes e bytes type link v own)
    (hdown : HandsDown e.schema type link v child w)
    (hr : e.schema.resolve child = .ok childType) : ∃ part, Writes e bytes childType child w part := by
  obtain ⟨⟨levels, hy⟩, hwithin⟩ := h
  cases levels with
  | zero => exact absurd hy Output.not_yields_fail
  | succ levels =>
    obtain ⟨part, _, hpart, hown⟩ := step_includes hdown own () hy
    rw [follow_of_resolve hr] at hpart
    exact ⟨part, ⟨levels, hpart⟩, hown.trans hwithin⟩

end Encode

namespace Encoder

open Encode (Stands Writes)

/-- Every position of a value that is encoded is written, and its bytes stand among those of the
whole. -/
theorem writes_of_stands {e : Encoder} {levels : Nat} {index v : Value} {bytes : List UInt8}
    (h : e.encodeWithin levels index v = .ok bytes) {type : Ty} {link : Link} {w : Value}
    (hstands : Stands e.schema index v type link w) : ∃ own, Writes e bytes type link w own := by
  induction hstands with
  | root hindex htype =>
    rw [encodeWithin, hindex] at h
    simp only [htype] at h
    exact ⟨bytes, ⟨levels, Output.result_eq_ok_iff_yields.mp h⟩, List.infix_rfl⟩
  | down _ hdown hr ih =>
    obtain ⟨own, hown⟩ := ih
    exact hown.below hdown hr

end Encoder

end BorshWire
