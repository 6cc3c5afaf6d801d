import BorshWire.Schema.Load
import Mathlib.Data.List.Forall2
import Mathlib.Data.List.Nodup

/-!
# Ways to write a part of a descriptor

A part of a descriptor can be written in more than one way: the members of an object stand in any
order and among members of other names, and those with a default may be left out. A `Writing` holds
all these ways together with the plain one, where every member stands in its place. `Writing.IsRead`
says that a check reads every one of them as the same part; there is a rule for each combinator.
-/

namespace BorshWire

namespace Descriptor

/-- The ways to write a part, with the plain one among them. -/
structure Writing where
  plain : Value
  Admits : Value → Prop
  admits_plain : Admits plain
  holdsView_plain : plain.holdsView = false

/-- A member of an object, which can be one that may be left out. -/
structure Member where
  name : Text
  omissible : Bool
  writing : Writing

/-- Under the name of the member stands a writing of it, or nothing if it may be left out. -/
def Member.StandsIn (m : Member) (entries : Fields) : Prop :=
  match Value.entry? m.name entries with
  | some v => m.writing.Admits v
  | none => m.omissible = true

namespace Member

variable {name : Text} {omissible : Bool} {w : Writing} {entries : Fields}

theorem standsIn_iff :
    StandsIn ⟨name, omissible, w⟩ entries ↔
      (∃ v, Value.entry? name entries = some v ∧ w.Admits v) ∨
        Value.entry? name entries = none ∧ omissible = true := by
  unfold StandsIn
  cases Value.entry? name entries with
  | none => simp
  | some v => simp

theorem StandsIn.of_entry {v : Value} (hv : Value.entry? name entries = some v) (h : w.Admits v) :
    StandsIn ⟨name, omissible, w⟩ entries := standsIn_iff.mpr (.inl ⟨v, hv, h⟩)

theorem StandsIn.of_none (hnone : Value.entry? name entries = none) (h : omissible = true) :
    StandsIn ⟨name, omissible, w⟩ entries := standsIn_iff.mpr (.inr ⟨hnone, h⟩)

theorem StandsIn.exists_entry (h : StandsIn ⟨name, false, w⟩ entries) :
    ∃ v, Value.entry? name entries = some v ∧ w.Admits v :=
  (standsIn_iff.mp h).resolve_right fun hnone => nomatch hnone.2

/-- All of the members stand in the entries, one by one. -/
def AllStandIn : List Member → Fields → Prop
  | [], _ => True
  | m :: members, entries => m.StandsIn entries ∧ AllStandIn members entries

@[simp] theorem allStandIn_iff {members : List Member} :
    AllStandIn members entries ↔ ∀ m ∈ members, m.StandsIn entries := by
  induction members with
  | nil => exact ⟨fun _ => nofun, fun _ => trivial⟩
  | cons m members ih => rw [AllStandIn, ih, List.forall_mem_cons]

end Member

theorem entry?_of_mem {members : List Member} (distinct : (members.map Member.name).Nodup)
    {m : Member} (hm : m ∈ members) :
    Value.entry? m.name (members.map fun m => (Key.text m.name, m.writing.plain)) =
      some m.writing.plain := by
  induction members with
  | nil => cases hm
  | cons other rest ih =>
    rw [List.map_cons, List.nodup_cons] at distinct
    rw [List.map_cons, Value.entry?]
    rcases List.mem_cons.mp hm with rfl | hm
    · exact if_pos rfl
    · have hne : other.name ≠ m.name := fun h => distinct.1 (h ▸ List.mem_map_of_mem hm)
      rw [if_neg hne]
      exact ih distinct.2 hm

theorem anyHoldsView_plain (items : List Writing) :
    Value.anyHoldsView (items.map Writing.plain) = false := by
  induction items with
  | nil => rfl
  | cons w rest ih => rw [List.map_cons, Value.anyHoldsView, w.holdsView_plain, ih, Bool.or_false]

theorem entriesHoldView_plain (members : List Member) :
    Value.entriesHoldView (members.map fun m => (Key.text m.name, m.writing.plain)) = false := by
  induction members with
  | nil => rfl
  | cons m rest ih =>
    rw [List.map_cons, Value.entriesHoldView, m.writing.holdsView_plain, ih, Bool.or_false]

namespace Writing

/-! ## Combinators -/

/-- What is written in one way only. -/
def only (v : Value) (h : v.holdsView = false) : Writing := ⟨v, (· = v), rfl, h⟩

def null : Writing := only .null rfl

def bool (b : Bool) : Writing := only (.bool b) rfl

def integer (n : Int) : Writing := only (.int n) rfl

def text (t : Text) : Writing := only (.text t) rfl

/-- Nothing is written as null. -/
def ofOption {α : Type} (writing : α → Writing) : Option α → Writing
  | none => null
  | some a => writing a

/-- The parts one after the other. -/
def list (items : List Writing) : Writing where
  plain := .list (items.map plain)
  Admits v := ∃ vs, v = .list vs ∧ List.Forall₂ Admits items vs
  admits_plain :=
    ⟨_, rfl, List.forall₂_map_right_iff.mpr (List.forall₂_same.mpr fun w _ => w.admits_plain)⟩
  holdsView_plain := anyHoldsView_plain items

/-- The payload under its tag and nothing else. -/
def tagged (tag : Text) (payload : Writing) : Writing where
  plain := .map [(.text tag, payload.plain)]
  Admits v := ∃ w, v = .map [(.text tag, w)] ∧ payload.Admits w
  admits_plain := ⟨_, rfl, payload.admits_plain⟩
  holdsView_plain := by
    rw [Value.holdsView, Value.entriesHoldView, payload.holdsView_plain]
    rfl

/-- An object: its members, in any order and whatever stands under other names. -/
def object (members : List Member) (distinct : (members.map Member.name).Nodup) : Writing where
  plain := .map (members.map fun m : Member => (Key.text m.name, m.writing.plain))
  Admits v := ∃ entries, v = .map entries ∧ ∀ m ∈ members, m.StandsIn entries
  admits_plain := by
    refine ⟨_, rfl, fun m hm => ?_⟩
    rw [Member.StandsIn, entry?_of_mem distinct hm]
    exact m.writing.admits_plain
  holdsView_plain := entriesHoldView_plain members

theorem admits_list {items : List Writing} {vs : List Value}
    (h : List.Forall₂ Admits items vs) : (list items).Admits (.list vs) := ⟨vs, rfl, h⟩

theorem admits_tagged {tag : Text} {payload : Writing} {v : Value} (h : payload.Admits v) :
    (tagged tag payload).Admits (.map [(.text tag, v)]) := ⟨v, rfl, h⟩

theorem admits_object_iff {members : List Member} {distinct : (members.map Member.name).Nodup}
    {v : Value} : (object members distinct).Admits v ↔
      ∃ entries, v = .map entries ∧ Member.AllStandIn members entries := by
  simp only [Member.allStandIn_iff]
  rfl

theorem admits_object {members : List Member} {distinct : (members.map Member.name).Nodup}
    {entries : Fields} (h : Member.AllStandIn members entries) :
    (object members distinct).Admits (.map entries) := admits_object_iff.mpr ⟨entries, rfl, h⟩

/-! ## Reading -/

variable {α : Type}

/-- The check reads this part, however it is written. -/
def IsRead (w : Writing) (check : Value → Checked α) (a : α) : Prop :=
  ∀ v, w.Admits v → check v = .sound a

namespace IsRead

variable {w : Writing} {check : Value → Checked α} {a : α}

theorem only {v : Value} {h : v.holdsView = false} (hv : check v = .sound a) :
    (Writing.only v h).IsRead check a :=
  fun _ hw => (congrArg check hw).trans hv

theorem some (h : w.IsRead check a) (hnull : ¬w.Admits .null) :
    w.IsRead (optional check) (some a) := by
  intro v hv
  have hchecked : optional check v = Option.some <$> check v := by
    cases v with
    | null => exact absurd hv hnull
    | _ => rfl
  rw [hchecked, h v hv]
  rfl

theorem ofOption {writing : α → Writing} (h : ∀ a, (writing a).IsRead check a)
    (hnull : ∀ a, ¬(writing a).Admits .null) (a? : Option α) :
    (Writing.ofOption writing a?).IsRead (optional check) a? := by
  cases a? with
  | none => exact only rfl
  | some a => exact (h a).some (hnull a)

theorem list_map {β : Type} {writing : β → Writing} {part : β → α}
    (h : ∀ b, (writing b).IsRead check (part b)) (items : List β) :
    (Writing.list (items.map writing)).IsRead (Descriptor.list check) (items.map part) := by
  rintro _ ⟨vs, rfl, hvs⟩
  rw [List.forall₂_map_left_iff] at hvs
  show Checked.all check 0 vs = _
  generalize 0 = position
  induction hvs generalizing position with
  | nil => rfl
  | cons hv _ ih =>
    rw [Checked.all, h _ _ hv, ih]
    rfl

theorem list {writing : α → Writing} (h : ∀ a, (writing a).IsRead check a) (items : List α) :
    (Writing.list (items.map writing)).IsRead (Descriptor.list check) items := by
  have hitems := list_map h items
  rwa [List.map_id'] at hitems

theorem required {name : Text} {entries : Fields} (h : w.IsRead check a)
    (hm : Member.StandsIn ⟨name, false, w⟩ entries) :
    Descriptor.required name check entries = .sound a := by
  obtain ⟨v, hv, hadmits⟩ := hm.exists_entry
  unfold Descriptor.required
  rw [hv]
  dsimp only
  rw [h v hadmits]
  rfl

theorem defaulted {name : Text} {omissible : Bool} {default : α} {entries : Fields}
    (h : w.IsRead check a) (hm : Member.StandsIn ⟨name, omissible, w⟩ entries)
    (hdefault : omissible = true → default = a) :
    Descriptor.defaulted name default check entries = .sound a := by
  unfold Descriptor.defaulted
  rcases Member.standsIn_iff.mp hm with ⟨v, hv, hadmits⟩ | ⟨hnone, homissible⟩
  · rw [hv]
    dsimp only
    rw [h v hadmits]
    rfl
  · rw [hnone, hdefault homissible]

theorem defaulted_ofOption {writing : α → Writing} (h : ∀ a, (writing a).IsRead check a)
    (hnull : ∀ a, ¬(writing a).Admits .null) {name : Text} {a? : Option α} {entries : Fields}
    (hm : Member.StandsIn ⟨name, a?.isNone, .ofOption writing a?⟩ entries) :
    Descriptor.defaulted name none (optional check) entries = .sound a? :=
  (ofOption h hnull a?).defaulted hm fun hnone => (Option.isNone_iff_eq_none.mp hnone).symm

theorem model {members : List Member} {distinct : (members.map Member.name).Nodup} {name : Text}
    {check : Fields → Checked α}
    (h : ∀ entries, Member.AllStandIn members entries → check entries = .sound a) :
    (Writing.object members distinct).IsRead (Descriptor.model name check) a := by
  intro v hv
  obtain ⟨entries, rfl, hm⟩ := admits_object_iff.mp hv
  exact h entries hm

theorem constructor {members : List Member} {distinct : (members.map Member.name).Nodup}
    {tag : String} {check : Fields → Checked α}
    (h : ∀ entries, Member.AllStandIn members entries → check entries = .sound a) :
    (Writing.object members distinct).IsRead (Descriptor.constructor tag check).check a := by
  intro v hv
  obtain ⟨entries, rfl, hm⟩ := admits_object_iff.mp hv
  exact h entries hm

theorem oneOf {constructors : List (Constructor α)} {c : Constructor α} {tag : Text}
    (hc : constructors.find? (fun c => c.tag = tag) = Option.some c) (h : w.IsRead c.check a) :
    (Writing.tagged tag w).IsRead (Descriptor.oneOf constructors) a := by
  rintro _ ⟨payload, rfl, hpayload⟩
  unfold Descriptor.oneOf
  simp only [tagged?, hc, h payload hpayload]
  rfl

theorem oneOf_bare {constructors : List (Constructor α)} {c : Constructor α} {tag : Text}
    (hc : constructors.find? (fun c => c.tag = tag) = Option.some c)
    (h : c.check .null = .sound a) : (Writing.text tag).IsRead (Descriptor.oneOf constructors) a := by
  rintro _ rfl
  unfold Descriptor.oneOf
  simp only [tagged?, hc, h]
  rfl

end IsRead

end Writing

end Descriptor

end BorshWire
