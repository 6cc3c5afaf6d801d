import BorshWire.Proofs.Entries
import BorshWire.Proofs.Json.Tokens
import BorshWire.Serializer
import Mathlib.Data.List.Forall2

/-!
# Values through documents

`Encoder.encodeDocument_compact`: the compact spelling of a value without floats is a document that
stands for the value, members in their order, so encoding the document is encoding the value.

A spelling is read back in front of whatever may stand behind a value, which carries the induction
through arrays and objects: every item is read up to the comma or the bracket that follows it.
-/

namespace BorshWire

namespace Value

/-- The values that a document spells exactly: nothing, truth values, integers of no more digits
than are converted, texts, and at most `depth` layers of lists and of maps under distinct names. -/
inductive Spellable : Nat → Value → Prop where
  | null {depth : Nat} : Spellable depth .null
  | bool {depth : Nat} (b : Bool) : Spellable depth (.bool b)
  | int {depth : Nat} {n : Int} (h : (Text.ofNat n.natAbs).length ≤ maxIntegerDigits) :
    Spellable depth (.int n)
  | text {depth : Nat} (t : Text) : Spellable depth (.text t)
  | list {depth : Nat} {items : List Value} (h : ∀ v ∈ items, Spellable depth v) :
    Spellable (depth + 1) (.list items)
  | map {depth : Nat} {members : List (Text × Value)} (hnames : (members.map Prod.fst).Nodup)
    (h : ∀ m ∈ members, Spellable depth m.2) : Spellable (depth + 1) (.map (entriesOf members))

theorem insertEntry_of_new {name : Text} {members : List (Text × Value)}
    (h : name ∉ members.map Prod.fst) (v : Value) :
    insertEntry (.text name) v (entriesOf members) = entriesOf (members ++ [(name, v)]) := by
  induction members with
  | nil => rfl
  | cons m members ih =>
    obtain ⟨hm, hmembers⟩ := not_or.mp (mt List.mem_cons.mpr h)
    have hother : Key.same (.text m.1) (.text name) = false := decide_eq_false (Ne.symm hm)
    show insertEntry (.text name) v ((.text m.1, m.2) :: entriesOf members) = _
    rw [insertEntry, hother, if_neg Bool.false_ne_true, ih hmembers]
    rfl

end Value

namespace Json

open Value (entriesOf)

/-! ## Pieces with commas between them -/

/-- A text that starts with a mark of ASCII, but not with the bracket that closes an array. -/
def Opens (t : Text) : Prop := ∃ c tail, t = c :: tail ∧ 0x20 < c.val ∧ c.val < 0x7F ∧ c ≠ 0x5D

theorem Opens.append {t : Text} (h : Opens t) (rest : Text) : Opens (t ++ rest) := by
  obtain ⟨c, tail, rfl, hc⟩ := h
  exact ⟨c, tail ++ rest, rfl, hc⟩

theorem Opens.skipSpace {t : Text} (h : Opens t) (offset : Nat) :
    Cursor.skipSpace ⟨offset, t⟩ = ⟨offset, t⟩ := by
  obtain ⟨c, tail, rfl, hlow, _⟩ := h
  refine Cursor.skipSpace_of_not_space ?_ offset tail
  have hother : ∀ d : CodePoint, d.val ≤ 0x20 → decide (c = d) = false := by
    rintro d hd
    refine decide_eq_false ?_
    rintro rfl
    omega
  rw [Cursor.isSpace, hother, hother, hother, hother] <;> decide

theorem Opens.join {t : Text} (h : Opens t) (ts : List Text) : Opens (Text.join "," (t :: ts)) := by
  cases ts with
  | nil => exact h
  | cons t' ts => exact (h.append _).append _

/-- A text that is read as something and does not start like the end of a list. -/
structure IsItem {α : Type} (read : Cursor → Read α) (t : Text) (a : α) : Prop where
  opens : Opens t
  read : IsReadAs read t a

theorem join_cons_cons (t t' : Text) (ts : List Text) (rest : Text) :
    Text.join "," (t :: t' :: ts) ++ rest = t ++ 0x2C :: (Text.join "," (t' :: ts) ++ rest) := by
  simp only [Text.join, List.append_assoc]
  rfl

@[simp] theorem length_join_cons_cons (t t' : Text) (ts : List Text) :
    (Text.join "," (t :: t' :: ts)).length = t.length + 1 + (Text.join "," (t' :: ts)).length := by
  simp only [Text.join, List.length_append]
  rfl

theorem length_le_join (ts : List Text) (rest : Text) :
    ts.length ≤ (Text.join "," ts ++ rest).length + 1 := by
  rw [List.length_append]
  induction ts with
  | nil => exact Nat.zero_le _
  | cons t ts ih =>
    cases ts with
    | nil => exact Nat.le_add_left _ _
    | cons t' ts =>
      rw [length_join_cons_cons, List.length_cons]
      omega

/-! ## Arrays -/

section Nested

variable {value : Cursor → Read Value} {doc next : Text} {v : Value}

theorem items_item (h : IsReadAs value doc v) (fuel : Nat) (before : List Value) (offset : Nat)
    {tail : Text} (htail : Closes tail) :
    items value (fuel + 1) before ⟨offset, doc ++ tail⟩ =
      let c : Cursor := ⟨offset + doc.length, tail⟩
      match c.rest with
      | 0x5D :: _ => .ok ((v :: before).reverse, c.advance 1)
      | 0x2C :: _ => items value fuel (v :: before) (c.advance 1).skipSpace
      | _ => c.refuse .expectedComma := by
  rw [items, h offset tail htail]
  dsimp only
  rewrite [Cursor.skipSpace_of_closes htail]
  rfl

theorem items_last (h : IsReadAs value doc v) (fuel : Nat) (before : List Value) (offset : Nat)
    (rest : Text) :
    items value (fuel + 1) before ⟨offset, doc ++ 0x5D :: rest⟩ =
      .ok ((v :: before).reverse, ⟨offset + doc.length + 1, rest⟩) :=
  items_item h fuel before offset (.cons (.inr (.inl rfl)) rest)

theorem items_more (h : IsReadAs value doc v) (hnext : Opens next) (fuel : Nat)
    (before : List Value) (offset : Nat) :
    items value (fuel + 1) before ⟨offset, doc ++ 0x2C :: next⟩ =
      items value fuel (v :: before) ⟨offset + doc.length + 1, next⟩ :=
  (items_item h fuel before offset (.cons (.inl rfl) next)).trans
    (congrArg (items value fuel _) (hnext.skipSpace _))

theorem items_join {ts : List Text} {vs : List Value} (h : List.Forall₂ (IsItem value) ts vs)
    (hne : ts ≠ []) {fuel : Nat} (hfuel : ts.length ≤ fuel) (before : List Value) (offset : Nat)
    (rest : Text) :
    items value fuel before ⟨offset, Text.join "," ts ++ 0x5D :: rest⟩ =
      .ok (before.reverse ++ vs, ⟨offset + (Text.join "," ts).length + 1, rest⟩) := by
  induction h generalizing fuel before offset with
  | nil => exact absurd rfl hne
  | @cons t v ts vs hitem htail ih =>
    obtain ⟨fuel, rfl⟩ := Nat.exists_eq_add_one.mpr (Nat.lt_of_lt_of_le (Nat.succ_pos _) hfuel)
    cases htail with
    | nil =>
      rw [← List.reverse_cons]
      exact items_last hitem.read fuel before offset rest
    | @cons t' v' ts vs hitem' htail =>
      rw [join_cons_cons, items_more hitem.read ((hitem'.opens.join ts).append _),
        ih (List.cons_ne_nil _ _) (Nat.le_of_succ_le_succ hfuel), length_join_cons_cons]
      simp only [List.reverse_cons, List.append_assoc, List.singleton_append]
      congr 3
      omega

theorem array_join {ts : List Text} {vs : List Value} (h : List.Forall₂ (IsItem value) ts vs)
    (offset : Nat) (rest : Text) :
    array value ⟨offset, Text.join "," ts ++ 0x5D :: rest⟩ =
      .ok (.list vs, ⟨offset + (Text.join "," ts).length + 1, rest⟩) := by
  cases h with
  | nil => rfl
  | @cons t v ts vs hitem htail =>
    have hopens : Opens (Text.join "," (t :: ts) ++ 0x5D :: rest) := (hitem.opens.join ts).append _
    have hitems := items_join (.cons hitem htail) (List.cons_ne_nil t ts)
      (length_le_join (t :: ts) (0x5D :: rest)) [] offset rest
    unfold array
    rw [hopens.skipSpace]
    dsimp only
    split
    · rename_i heq
      obtain ⟨c, tail, hcons, _, _, hc⟩ := hopens
      exact absurd (List.cons.inj (hcons.symm.trans heq)).1 hc
    · rw [hitems]
      rfl

/-! ## Objects -/

/-- The text of a member. -/
def memberText (name doc : Text) : Text := Text.concat [name.jsonString, ":", doc]

theorem memberText_append (name doc tail : Text) :
    memberText name doc ++ tail = name.jsonString ++ 0x3A :: (doc ++ tail) := by
  simp only [memberText, Text.concat, List.flatten_cons, List.flatten_nil, List.append_nil,
    List.append_assoc]
  rfl

@[simp] theorem length_memberText (name doc : Text) :
    (memberText name doc).length = name.jsonString.length + 1 + doc.length := by
  have h := congrArg List.length (memberText_append name doc [])
  simp only [List.append_nil, List.length_append, List.length_cons] at h
  omega

theorem opens_memberText (name doc : Text) : Opens (memberText name doc) :=
  ⟨0x22, _, rfl, by decide, by decide, by decide⟩

/-- A text that is read as the member, name and value. -/
def IsMember (value : Cursor → Read Value) (t : Text) (m : Text × Value) : Prop :=
  ∃ doc, t = memberText m.1 doc ∧ IsItem value doc m.2

/-- A member is put in, and what follows decides whether another one comes. -/
theorem members_member (h : IsItem value doc v) (name : Text) (fuel : Nat)
    (before : List (Key × Value)) (offset : Nat) {tail : Text} (htail : Closes tail) :
    members value (fuel + 1) before ⟨offset, memberText name doc ++ tail⟩ =
      let entries := Value.insertEntry (.text name) v before
      let c : Cursor := ⟨offset + (memberText name doc).length, tail⟩
      match c.rest with
      | 0x7D :: _ => .ok (entries, c.advance 1)
      | 0x2C :: _ => members value fuel entries (c.advance 1).skipSpace
      | _ => c.refuse .expectedComma := by
  have hstring := string_jsonString name offset (0x3A :: (doc ++ tail))
  have hcolon : Cursor.skipSpace ⟨offset + name.jsonString.length, 0x3A :: (doc ++ tail)⟩ =
      ⟨offset + name.jsonString.length, 0x3A :: (doc ++ tail)⟩ :=
    Cursor.skipSpace_of_not_space (by decide) _ _
  have hdoc : Cursor.skipSpace
      (Cursor.advance ⟨offset + name.jsonString.length, 0x3A :: (doc ++ tail)⟩ 1) =
        ⟨offset + name.jsonString.length + 1, doc ++ tail⟩ :=
    (h.opens.append tail).skipSpace _
  obtain ⟨t, ht⟩ : ∃ t, name.jsonString ++ 0x3A :: (doc ++ tail) = 0x22 :: t := ⟨_, rfl⟩
  rw [ht] at hstring
  rw [memberText_append, ht, members, length_memberText, ← Nat.add_assoc offset,
    ← Nat.add_assoc offset]
  dsimp only
  rw [hstring]
  dsimp only
  rw [hcolon]
  dsimp only
  rw [hdoc, h.read _ tail htail]
  dsimp only
  rw [Cursor.skipSpace_of_closes htail]
  rfl

theorem members_last (h : IsItem value doc v) (name : Text) (fuel : Nat)
    (before : List (Key × Value)) (offset : Nat) (rest : Text) :
    members value (fuel + 1) before ⟨offset, memberText name doc ++ 0x7D :: rest⟩ =
      .ok (Value.insertEntry (.text name) v before,
        ⟨offset + (memberText name doc).length + 1, rest⟩) :=
  members_member h name fuel before offset (.cons (.inr (.inr rfl)) rest)

theorem members_more (h : IsItem value doc v) (hnext : Opens next) (name : Text) (fuel : Nat)
    (before : List (Key × Value)) (offset : Nat) :
    members value (fuel + 1) before ⟨offset, memberText name doc ++ 0x2C :: next⟩ =
      members value fuel (Value.insertEntry (.text name) v before)
        ⟨offset + (memberText name doc).length + 1, next⟩ :=
  (members_member h name fuel before offset (.cons (.inl rfl) next)).trans
    (congrArg (members value fuel _) (hnext.skipSpace _))

/-- Members with commas between them are read up to the closing brace, in their order. -/
theorem members_join (before : List (Text × Value)) {ts : List Text} {ms : List (Text × Value)}
    (h : List.Forall₂ (IsMember value) ts ms) (hne : ts ≠ [])
    (hnames : ((before ++ ms).map Prod.fst).Nodup) {fuel : Nat} (hfuel : ts.length ≤ fuel)
    (offset : Nat) (rest : Text) :
    members value fuel (entriesOf before) ⟨offset, Text.join "," ts ++ 0x7D :: rest⟩ =
      .ok (entriesOf (before ++ ms), ⟨offset + (Text.join "," ts).length + 1, rest⟩) := by
  induction h generalizing fuel before offset with
  | nil => exact absurd rfl hne
  | @cons t m ts ms hmember htail ih =>
    obtain ⟨doc, rfl, hitem⟩ := hmember
    obtain ⟨fuel, rfl⟩ := Nat.exists_eq_add_one.mpr (Nat.lt_of_lt_of_le (Nat.succ_pos _) hfuel)
    have hnew : m.1 ∉ before.map Prod.fst := by
      rw [List.map_append, List.map_cons] at hnames
      exact fun hmem => (List.disjoint_of_nodup_append hnames) hmem List.mem_cons_self
    cases htail with
    | nil =>
      rw [← Value.insertEntry_of_new hnew]
      exact members_last hitem m.1 fuel (entriesOf before) offset rest
    | @cons t' m' ts ms hmember' htail =>
      obtain ⟨doc', rfl, _⟩ := id hmember'
      rw [List.append_cons] at hnames
      rw [join_cons_cons, members_more hitem (((opens_memberText m'.1 doc').join ts).append _),
        Value.insertEntry_of_new hnew, ih _ (List.cons_ne_nil _ _) hnames
          (Nat.le_of_succ_le_succ hfuel), length_join_cons_cons]
      simp only [List.append_assoc, List.singleton_append]
      congr 3
      omega

theorem object_join {ts : List Text} {ms : List (Text × Value)}
    (h : List.Forall₂ (IsMember value) ts ms) (hnames : (ms.map Prod.fst).Nodup) (offset : Nat)
    (rest : Text) :
    object value ⟨offset, Text.join "," ts ++ 0x7D :: rest⟩ =
      .ok (.map (entriesOf ms), ⟨offset + (Text.join "," ts).length + 1, rest⟩) := by
  cases h with
  | nil => rfl
  | @cons t m ts ms hmember htail =>
    have hquote : ∃ tail, Text.join "," (t :: ts) ++ 0x7D :: rest = 0x22 :: tail := by
      obtain ⟨doc, rfl, _⟩ := hmember
      cases ts <;> exact ⟨_, rfl⟩
    have hmembers := members_join [] (.cons hmember htail) (List.cons_ne_nil t ts) hnames
      (length_le_join (t :: ts) (0x7D :: rest)) offset rest
    obtain ⟨tail, htext⟩ := hquote
    rw [htext] at hmembers ⊢
    have hskip : Cursor.skipSpace ⟨offset, 0x22 :: tail⟩ = ⟨offset, 0x22 :: tail⟩ :=
      Cursor.skipSpace_of_not_space (by decide) offset tail
    unfold object
    rw [hskip]
    dsimp only
    exact congrArg (Except.map fun r => (Value.map r.1, r.2)) hmembers

end Nested

/-! ## Values -/

/-- The text is the compact spelling of the value and is read as the value. -/
structure Spells (allowConstants : Bool) (depth : Nat) (t : Text) (v : Value) : Prop where
  document : v.json? = some t
  item : IsItem (value allowConstants depth) t v

theorem value_of_not_nested {c : CodePoint} (h : c ≠ 0x22 ∧ c ≠ 0x5B ∧ c ≠ 0x7B)
    (allowConstants : Bool) (depth offset : Nat) (tail : Text) :
    value allowConstants depth ⟨offset, c :: tail⟩ = scalar allowConstants ⟨offset, c :: tail⟩ := by
  cases depth <;> exact valueWith_of_scalar h allowConstants _ offset tail

theorem value_quote (allowConstants : Bool) (depth offset : Nat) (tail : Text) :
    value allowConstants depth ⟨offset, 0x22 :: tail⟩ =
      (string (Cursor.advance ⟨offset, 0x22 :: tail⟩ 1)).map fun r => (.text r.1, r.2) := by
  cases depth <;> rfl

section Spells

variable {allowConstants : Bool} {depth : Nat}

theorem Spells.of_scalar {t : Text} {v : Value} (hjson : v.json? = some t)
    (hopens : ∃ c tail, t = c :: tail ∧ 0x20 < c.val ∧ c.val < 0x7F ∧
      c ≠ 0x5D ∧ c ≠ 0x22 ∧ c ≠ 0x5B ∧ c ≠ 0x7B)
    (h : IsReadAs (scalar allowConstants) t v) : Spells allowConstants depth t v := by
  obtain ⟨c, tail, rfl, hlow, hhigh, hclose, hother⟩ := hopens
  refine ⟨hjson, ⟨c, tail, rfl, hlow, hhigh, hclose⟩, fun offset rest hrest => ?_⟩
  exact (value_of_not_nested hother allowConstants depth offset (tail ++ rest)).trans
    (h offset rest hrest)

theorem Spells.null : Spells allowConstants depth "null" .null :=
  .of_scalar rfl ⟨_, _, rfl, by decide⟩ (scalar_word (by simp [words]) allowConstants)

theorem Spells.bool (b : Bool) : Spells allowConstants depth (boolJson b) (.bool b) := by
  have hword : (boolJson b, Value.bool b) ∈ words := by cases b <;> simp [words, boolJson]
  refine .of_scalar rfl ?_ (scalar_word hword allowConstants)
  cases b <;> exact ⟨_, _, rfl, by decide⟩

theorem Spells.int {n : Int} (h : (Text.ofNat n.natAbs).length ≤ maxIntegerDigits) :
    Spells allowConstants depth (Text.ofInt n) (.int n) := by
  refine .of_scalar rfl ?_ (scalar_ofInt h allowConstants)
  cases n with
  | ofNat n =>
    obtain ⟨c, tail, hcons, hdigit⟩ := Text.exists_digit_ofNat n
    have hc : 0x30 ≤ c.val ∧ c.val ≤ 0x39 := of_decide_eq_true hdigit
    have hne : ∀ d : CodePoint, d.val < 0x30 ∨ 0x39 < d.val → c ≠ d := by
      rintro d hd rfl
      omega
    exact ⟨c, tail, hcons, by omega, by omega, hne _ (by decide), hne _ (by decide),
      hne _ (by decide), hne _ (by decide)⟩
  | negSucc n => exact ⟨0x2D, _, rfl, by decide⟩

theorem Spells.text (t : Text) : Spells allowConstants depth t.jsonString (.text t) := by
  refine ⟨rfl, ⟨0x22, _, rfl, by decide, by decide, by decide⟩, fun offset rest _ => ?_⟩
  have hread := congrArg (Except.map fun r => (Value.text r.1, r.2)) (string_jsonString t offset rest)
  exact (value_quote allowConstants depth offset _).trans hread

theorem exists_jsons {items : List Value} (h : ∀ v ∈ items, ∃ t, Spells allowConstants depth t v) :
    ∃ ts, Value.jsons? items = some ts ∧
      List.Forall₂ (IsItem (value allowConstants depth)) ts items := by
  induction items with
  | nil => exact ⟨[], rfl, .nil⟩
  | cons v items ih =>
    obtain ⟨⟨t, ht⟩, hitems⟩ := List.forall_mem_cons.mp h
    obtain ⟨ts, hts, hread⟩ := ih hitems
    exact ⟨t :: ts, by rw [Value.jsons?, ht.document, hts], .cons ht.item hread⟩

theorem exists_entryJsons {members : List (Text × Value)}
    (h : ∀ m ∈ members, ∃ t, Spells allowConstants depth t m.2) :
    ∃ ts, Value.entryJsons? (entriesOf members) = some ts ∧
      List.Forall₂ (IsMember (value allowConstants depth)) ts members := by
  induction members with
  | nil => exact ⟨[], rfl, .nil⟩
  | cons m members ih =>
    obtain ⟨⟨t, ht⟩, hmembers⟩ := List.forall_mem_cons.mp h
    obtain ⟨ts, hts, hread⟩ := ih hmembers
    refine ⟨memberText m.1 t :: ts, ?_, .cons ⟨t, rfl, ht.item⟩ hread⟩
    show Value.entryJsons? ((.text m.1, m.2) :: entriesOf members) = _
    rw [Value.entryJsons?, Key.jsonName?, ht.document, hts]
    rfl

/-- A spelling in brackets, which is read on behind the opening one. -/
theorem Spells.of_brackets (opening closing : CodePoint) {t : Text} {v : Value}
    (hjson : v.json? = some (Text.concat [[opening], t, [closing]]))
    (hopens : 0x20 < opening.val ∧ opening.val < 0x7F ∧ opening ≠ 0x5D)
    (h : ∀ offset rest, value allowConstants depth ⟨offset, opening :: (t ++ closing :: rest)⟩ =
      .ok (v, ⟨offset + 1 + t.length + 1, rest⟩)) :
    Spells allowConstants depth (opening :: (t ++ [closing])) v := by
  have hconcat : Text.concat [[opening], t, [closing]] = opening :: (t ++ [closing]) := by
    simp [Text.concat]
  refine ⟨hjson.trans (congrArg some hconcat), ⟨opening, _, rfl, hopens⟩, fun offset rest _ => ?_⟩
  rw [List.cons_append, List.append_assoc, List.singleton_append, h, List.length_cons,
    List.length_append, List.length_singleton]
  congr 3
  omega

theorem Spells.list {items : List Value} (h : ∀ v ∈ items, ∃ t, Spells allowConstants depth t v) :
    ∃ t, Spells allowConstants (depth + 1) t (.list items) := by
  obtain ⟨ts, hts, hread⟩ := exists_jsons h
  refine ⟨_, .of_brackets 0x5B 0x5D ?_ (by decide) fun offset rest =>
    array_join hread (offset + 1) rest⟩
  rw [Value.json?, hts]
  rfl

theorem Spells.map {members : List (Text × Value)} (hnames : (members.map Prod.fst).Nodup)
    (h : ∀ m ∈ members, ∃ t, Spells allowConstants depth t m.2) :
    ∃ t, Spells allowConstants (depth + 1) t (.map (entriesOf members)) := by
  obtain ⟨ts, hts, hread⟩ := exists_entryJsons h
  refine ⟨_, .of_brackets 0x7B 0x7D ?_ (by decide) fun offset rest =>
    object_join hread hnames (offset + 1) rest⟩
  rw [Value.json?, hts]
  rfl

theorem exists_spells (allowConstants : Bool) {v : Value} (h : v.Spellable depth) :
    ∃ t, Spells allowConstants depth t v := by
  induction h with
  | null => exact ⟨_, .null⟩
  | bool b => exact ⟨_, .bool b⟩
  | int h => exact ⟨_, .int h⟩
  | text t => exact ⟨_, .text t⟩
  | list _ ih => exact Spells.list ih
  | map hnames _ ih => exact Spells.map hnames ih

end Spells

/-! ## Documents -/

/-- The compact spelling of a value is read as the value. -/
theorem parseWithin_compact {depth : Nat} {v : Value} (h : v.Spellable depth)
    (allowConstants : Bool) : parseWithin allowConstants depth v.compact = .ok v := by
  obtain ⟨t, hjson, hopens, hread⟩ := exists_spells allowConstants h
  have hcompact : v.compact = t := by rw [Value.compact, hjson, Option.getD_some]
  have hvalue := hread 0 [] .nil
  rw [List.append_nil] at hvalue
  have hall : readAll allowConstants depth t = .ok v := by
    rw [readAll, hopens.skipSpace, hvalue]
    rfl
  have hmark : t.head? ≠ some 0xFEFF := by
    obtain ⟨c, tail, rfl, _, hhigh, _⟩ := hopens
    rintro ⟨⟩
    exact absurd hhigh (by decide)
  rw [hcompact, parseWithin, if_neg hmark, hall]
  rfl

end Json

/-- The compact spelling of a value is a document that stands for the value, and encoding it is
encoding the value, whatever the schema, the index and the limits. -/
theorem Encoder.encodeDocument_compact {v : Value} (h : v.Spellable Json.maxNesting) :
    (∀ allowConstants, (Document.text v.compact).parse allowConstants = .ok v) ∧
      ∀ (e : Encoder) (stack : Stack) (index : Value),
        e.encodeDocument stack index (.text v.compact) = e.run stack index v := by
  have hparse := Json.parseWithin_compact h
  refine ⟨hparse, fun e stack index => ?_⟩
  rw [encodeDocument, Document.parse, hparse]
  rfl

/-- A map under a name with half of a pair and a quote in it, with a list, a negative integer and a
text with a character outside the first plane. -/
def Value.parcel : Value :=
  .map (entriesOf [([0xD800, 0x22], .list [.int (-12), .null, .bool true, .map []]),
    ([0x0A, 0x01], .text [0xE9, 0x1F600, 0x5C])])

example : Value.parcel.compact = Text.concat [[0x7B, 0x22, 0xD800], "\\\"\":[-12,null,true,\x7b\x7d],",
    "\"\\n\\u0001\":\"", [0xE9, 0x1F600], "\\\\\"\x7d"] := by rfl

theorem Encoder.encodeDocument_compact_parcel :
    Value.parcel.Spellable Json.maxNesting ∧
      (∀ allowConstants, (Document.text Value.parcel.compact).parse allowConstants =
        .ok Value.parcel) ∧
      ∀ (e : Encoder) (stack : Stack) (index : Value),
        e.encodeDocument stack index (.text Value.parcel.compact) =
          e.run stack index Value.parcel := by
  have hempty : Value.Spellable 988 (.map (Value.entriesOf [])) := .map .nil nofun
  have hlist : Value.Spellable 989 (.list [.int (-12), .null, .bool true, .map []]) := by
    refine .list ?_
    simp only [List.forall_mem_cons]
    exact ⟨.int (by decide), .null, .bool true, hempty, nofun⟩
  have hparcel : Value.parcel.Spellable Json.maxNesting := by
    refine .map (by decide) ?_
    simp only [List.forall_mem_cons]
    exact ⟨hlist, .text _, nofun⟩
  exact ⟨hparcel, encodeDocument_compact hparcel⟩

end BorshWire
