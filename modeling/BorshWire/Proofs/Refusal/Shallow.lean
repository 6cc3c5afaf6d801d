import BorshWire.Proofs.Refusal.WellFormed

/-!
# Shallow values are never too deep

`encode_of_shallow`: whether or not a schema leads back to itself, a value is not refused as too deep
if it nests little enough. A level of the walk takes a layer off the value, but for options and tuples
of one field, which hand it down as it is. If no more than `k` links in a row leave such types, then
a value of height `h` is walked in `(h + 1) * (k + 1)` levels: this many are left at the root, and what
is left at a position (`shallow_invariant`) is never less than what its value and the links up to the next
layer ask for.
-/

namespace BorshWire

/-! ## Heights of values -/

/-- The height of the items of a format: single bytes are buffers of one byte. -/
def ItemFormat.height : ItemFormat → Nat
  | character => 1
  | _ => 0

namespace Value

mutual

/-- How many layers a value has: none for scalars and for what is empty, else one more than the
highest of the items or values in it. The keys of maps do not count. -/
def height : Value → Nat
  | list items => itemsHeight items
  | tuple items => itemsHeight items
  | buffer _ data => if data.isEmpty then 0 else 1
  | view shown => if shown.items.length = 0 then 0 else shown.format.height + 1
  | range numbers => if numbers.length = 0 then 0 else 1
  | map entries => entriesHeight entries
  | _ => 0

/-- The height of what holds these items. -/
def itemsHeight : List Value → Nat
  | [] => 0
  | v :: rest => max (height v + 1) (itemsHeight rest)

/-- The height of what holds these entries. -/
def entriesHeight : List (Key × Value) → Nat
  | [] => 0
  | (_, v) :: rest => max (height v + 1) (entriesHeight rest)

end

theorem height_lt_of_mem {v : Value} {items : List Value} (h : v ∈ items) :
    v.height < itemsHeight items := by
  induction items with
  | nil => cases h
  | cons w rest ih =>
    rw [itemsHeight]
    rcases List.mem_cons.mp h with rfl | h
    · exact Nat.lt_of_lt_of_le (Nat.lt_succ_self _) (Nat.le_max_left _ _)
    · exact Nat.lt_of_lt_of_le (ih h) (Nat.le_max_right _ _)

theorem height_lt_of_mem_entries {entry : Key × Value} {entries : List (Key × Value)}
    (h : entry ∈ entries) : entry.2.height < entriesHeight entries := by
  induction entries with
  | nil => cases h
  | cons first rest ih =>
    obtain ⟨k, w⟩ := first
    rw [entriesHeight]
    rcases List.mem_cons.mp h with rfl | h
    · exact Nat.lt_of_lt_of_le (Nat.lt_succ_self _) (Nat.le_max_left _ _)
    · exact Nat.lt_of_lt_of_le (ih h) (Nat.le_max_right _ _)

theorem height_le_of_reader {format : ItemFormat} {item : List UInt8 → Value}
    (h : format.reader = .ok item) (own : List UInt8) : (item own).height ≤ format.height := by
  cases format with
  | other name size => cases h
  | character =>
    obtain rfl := Except.ok.inj h
    show (if own.isEmpty then 0 else 1) ≤ 1
    split <;> decide
  | _ =>
    obtain rfl := Except.ok.inj h
    exact Nat.le_refl 0

theorem length_ne_zero {items : Items} {v : Value} (h : v ∈ items.toList) : items.length ≠ 0 :=
  Nat.ne_of_gt (Nat.lt_of_lt_of_le (List.length_pos_of_mem h) items.length_toList_le)

theorem height_lt_of_items? {v w : Value} {items : Items} (hi : v.items? = some items)
    (hw : w ∈ items.toList) : w.height < v.height := by
  cases v with
  | list values =>
    obtain rfl := Option.some.inj hi
    rw [height]
    exact height_lt_of_mem hw
  | tuple values =>
    obtain rfl := Option.some.inj hi
    rw [height]
    exact height_lt_of_mem hw
  | buffer kind data =>
    obtain rfl := Option.some.inj hi
    obtain ⟨b, hb, rfl⟩ := List.mem_map.mp hw
    rw [height, if_neg (by simpa using List.ne_nil_of_mem hb)]
    exact Nat.zero_lt_one
  | view shown =>
    obtain rfl := Option.some.inj hi
    obtain ⟨item, own, hreader, rfl⟩ := View.exists_of_mem_items hw
    have hle := height_le_of_reader hreader own
    rw [height, if_neg (length_ne_zero hw)]
    exact Nat.lt_succ_of_le hle
  | range numbers =>
    obtain rfl := Option.some.inj hi
    have hlength : numbers.length ≠ 0 := length_ne_zero hw
    obtain ⟨n, _, rfl⟩ := List.mem_map.mp hw
    show 0 < height (range numbers)
    rw [height, if_neg hlength]
    exact Nat.zero_lt_one
  | _ => cases hi

theorem height_lt_of_mapping? {v : Value} {m : Mapping} {entry : Key × Value}
    (hm : v.mapping? = some m) (he : entry ∈ m.entries) : entry.2.height < v.height := by
  cases v with
  | map entries =>
    obtain rfl := Option.some.inj hm
    rw [height]
    exact height_lt_of_mem_entries he
  | vastMap count =>
    obtain rfl := Option.some.inj hm
    cases he
  | _ => cases hm

end Value

/-- What a level hands down is lower, unless it hands the value down as it is. -/
theorem Encode.Part.height_lt {type : Ty} {v w : Value} (h : Encode.Part type v w) :
    Encode.isTransparent type = true ∧ w = v ∨ w.height < v.height := by
  cases h with
  | same v h => exact .inl ⟨h, rfl⟩
  | item hi hw => exact .inr (Value.height_lt_of_items? hi hw)
  | entry hm hw => exact .inr (Value.height_lt_of_mapping? hm hw)
  | key hm he hw =>
    -- a text or a number, of height zero
    have hpos : 0 < v.height := Nat.zero_lt_of_lt (Value.height_lt_of_mapping? hm he)
    rcases Encode.eq_of_keyValue hw with rfl | ⟨n, rfl⟩ | ⟨x, rfl⟩ <;> exact .inr hpos

/-! ## Links that take nothing off -/

namespace Schema

/-- A link is met this many links further down from another one, by way of options and tuples of one
field only. -/
inductive Passage (s : Schema) : Link → Nat → Link → Prop where
  | here (link : Link) : Passage s link 0 link
  | down {link child last : Link} {type : Ty} {length : Nat} (hr : s.resolve link = .ok type)
    (ht : Encode.isTransparent type = true) (hc : child ∈ type.links)
    (h : Passage s child length last) : Passage s link (length + 1) last

/-- Wherever one gets to from the root, no more than so many links in a row leave options and tuples
of one field. -/
def PassagesWithin (s : Schema) (root : Link) (bound : Nat) : Prop :=
  ∀ link, s.Reaches root link → ∀ length last, s.Passage link length last → length ≤ bound

/-- A rank that falls along the links of options and tuples of one field, among links that lead only
to others of them, bounds the passages. -/
theorem PassagesWithin.of_rank {s : Schema} (links : List Link) (rank : Link → Nat) {bound : Nat}
    (hbound : ∀ link ∈ links, rank link ≤ bound)
    (h : ∀ link ∈ links, ∀ type, s.resolve link = .ok type → ∀ child ∈ type.links,
      child ∈ links ∧ (Encode.isTransparent type = true → rank child < rank link))
    {root : Link} (hroot : root ∈ links) : s.PassagesWithin root bound := by
  intro link hreach length last hpassage
  have hlink : link ∈ links :=
    hreach.mem_of_closed (fun link hl type hr child hc => (h link hl type hr child hc).1) hroot
  refine Nat.le_trans ?_ (hbound link hlink)
  clear hreach
  induction hpassage with
  | here link => exact Nat.zero_le _
  | down hr ht hc _ ih =>
    obtain ⟨hmem, hlt⟩ := h _ hlink _ hr _ hc
    exact Nat.lt_of_le_of_lt (ih hmem) (hlt ht)

end Schema

/-! ## The walk over a shallow value -/

namespace Encode

/-- The levels that are left are enough for every passage from here to the next layer of the value,
and for the layers that come after it. -/
def Suffices (s : Schema) (bound levels : Nat) (link : Link) (v : Value) : Prop :=
  ∀ length last, s.Passage link length last → length + 1 + v.height * (bound + 1) ≤ levels

/-- A level that takes a layer off leaves enough for the value below. -/
theorem Suffices.lower {s : Schema} {bound levels : Nat} {link child : Link} {v w : Value}
    (h : Suffices s bound (levels + 1) link v)
    (hbound : ∀ length last, s.Passage child length last → length ≤ bound)
    (hlt : w.height < v.height) : Suffices s bound levels child w := by
  intro length last hpassage
  have hhere : 0 + 1 + v.height * (bound + 1) ≤ levels + 1 := h 0 link (.here link)
  have hlayer : (w.height + 1) * (bound + 1) ≤ v.height * (bound + 1) :=
    Nat.mul_le_mul_right _ hlt
  have hlength := hbound length last hpassage
  rw [Nat.succ_mul] at hlayer
  omega

/-- A level that hands the value down as it is was on the way to the next layer. -/
theorem Suffices.through {s : Schema} {bound levels : Nat} {link child : Link} {type : Ty}
    {v : Value} (h : Suffices s bound (levels + 1) link v) (hr : s.resolve link = .ok type)
    (ht : isTransparent type = true) (hc : child ∈ type.links) :
    Suffices s bound levels child v := by
  intro length last hpassage
  have hlonger : length + 1 + 1 + v.height * (bound + 1) ≤ levels + 1 :=
    h (length + 1) last (.down hr ht hc hpassage)
  omega

/-- Enough levels are left at the next positions, if they are at this one. -/
theorem shallow_invariant (e : Encoder) {root : Link} {bound : Nat}
    (hbound : e.schema.PassagesWithin root bound) :
    Invariant e
      (fun levels type link v => e.schema.Reaches root link ∧ e.schema.resolve link = .ok type ∧
        Suffices e.schema bound levels link v)
      (fun err => err.kind? ≠ some .recursionLimit) where
  tooDeep := by
    rintro type link v ⟨_, _, henough⟩
    have hnone : 0 + 1 + v.height * (bound + 1) ≤ 0 := henough 0 link (.here link)
    omega
  own := by
    rintro levels type link v err _ h hk
    rcases h.kind hk with hvalue | hmissing
    · cases hvalue
    · cases hmissing
  unresolved _ _ _ := nofun
  below := by
    rintro levels type childType link child v w ⟨hreach, hr, henough⟩ hc hchild hpart
    refine ⟨hreach.step hr hc, hchild, ?_⟩
    rcases hpart.height_lt with ⟨htransparent, rfl⟩ | hlt
    · exact henough.through hr htransparent hc
    · exact henough.lower (hbound child (hreach.step hr hc)) hlt

end Encode

namespace Encoder

open Encode (RefusedWith)

variable {e : Encoder} {index : Int} {bound : Nat} {v : Value}

theorem encodeWithin_of_shallow
    (hbound : e.schema.PassagesWithin (.byIndex index.toNat) bound) {levels : Nat}
    (henough : (v.height + 1) * (bound + 1) ≤ levels) :
    ¬RefusedWith (e.encodeWithin levels (.int index) v) .recursionLimit := by
  rintro ⟨err, herr, hkind⟩
  rcases encodeWithin_error_cases herr with rfl | ⟨type, hr, herr⟩
  · cases hkind
  · refine encodeWithin_fails (Encode.shallow_invariant e hbound) hr ⟨.root, hr, ?_⟩ herr hkind
    intro length last hpassage
    have hlength := hbound _ .root length last hpassage
    rw [Nat.succ_mul] at henough
    omega

/-- A value of height `h` is not refused as too deep, if below the root no more than `k` links in a
row leave options and tuples of one field, and `(h + 1) * (k + 1)` levels are walked: those of depth
zero up to the limit. The schema may lead back to itself as it likes. -/
theorem encode_of_shallow (hbound : e.schema.PassagesWithin (.byIndex index.toNat) bound)
    (henough : (v.height + 1) * (bound + 1) ≤ e.config.maxDepth + 1) :
    ¬RefusedWith (e.encode (.int index) v) .recursionLimit ∧
      ∀ stack : Stack, (v.height + 1) * (bound + 1) ≤ stack.levels →
        ¬RefusedWith (e.run stack (.int index) v) .recursionLimit :=
  ⟨encodeWithin_of_shallow hbound henough,
    fun _ hroom => encodeWithin_of_shallow hbound (Nat.le_min.mpr ⟨henough, hroom⟩)⟩

end Encoder

/-- Lists of lists, each of which may be missing. -/
def Schema.gaps : Schema :=
  build [.vec (.byIndex 1), .option (.byIndex 0)] [1] [⟨"", []⟩, ⟨"", []⟩] none [] []

theorem Schema.gaps_passagesWithin : gaps.PassagesWithin (.byIndex 1) 1 := by
  refine .of_rank [.byIndex 0, .byIndex 1] (fun link => if link = .byIndex 1 then 1 else 0)
    (by decide) (fun link h type hr child hc => ?_) (by decide)
  simp only [List.mem_cons, List.not_mem_nil, or_false] at h
  rcases h with rfl | rfl
  all_goals
    obtain rfl := Except.ok.inj hr
    revert child
    decide

/-- A value of height two is walked down to the last of the six levels that the limit allows. -/
theorem Encoder.gaps_walked :
    let e : Encoder := ⟨.gaps, ⟨5, 90, by decide, by decide⟩⟩
    let v : Value := .list [.list [.null, .list []]]
    (v.height + 1) * (1 + 1) = e.config.maxDepth + 1 ∧
      ¬Encode.RefusedWith (e.encode (.int 1) v) .recursionLimit ∧
      ¬Encode.RefusedWith (e.run ⟨6, 1⟩ (.int 1) v) .recursionLimit := by
  intro e v
  have hheight : (v.height + 1) * (1 + 1) = e.config.maxDepth + 1 := by decide +kernel
  have h := @encode_of_shallow e 1 1 v Schema.gaps_passagesWithin (Nat.le_of_eq hheight)
  exact ⟨hheight, h.1, h.2 ⟨6, 1⟩ (Nat.le_of_eq hheight)⟩

end BorshWire
