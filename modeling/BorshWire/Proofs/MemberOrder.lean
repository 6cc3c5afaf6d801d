import BorshWire.Proofs.Entries
import BorshWire.Proofs.Simulation.Walk

/-!
# The order of members does not matter

`encode_agree_of_permuted`: documents that differ only in the order of the members of their
mappings, at any depth, are encoded to the same bytes or refused with one kind. Names are taken out
of a mapping one by one and its entries are sorted by distinct key texts, so neither sees the order
(`takeEntry_of_perm`, `sortedEntries_of_perm`).
-/

namespace BorshWire

/-! ## Permuted documents -/

/-- The entry of a member: its name as a key, with its value on one of the two sides. -/
def memberEntry (side : Value × Value → Value) (m : Text × Value × Value) : Key × Value :=
  (.text m.1, side m.2)

/-- Documents of nothing, truth values, numbers, texts, lists and mappings with distinct names that
differ only in the order of members. -/
inductive Value.Permuted : Value → Value → Prop where
  | null : Permuted .null .null
  | bool (b : Bool) : Permuted (.bool b) (.bool b)
  | int (n : Int) : Permuted (.int n) (.int n)
  | float (x : Double) : Permuted (.float x) (.float x)
  | text (t : Text) : Permuted (.text t) (.text t)
  | list (items : List (Value × Value)) (h : ∀ p ∈ items, Permuted p.1 p.2) :
    Permuted (.list (items.map Prod.fst)) (.list (items.map Prod.snd))
  | map {es fs : List (Key × Value)} (members : List (Text × Value × Value))
    (distinct : (members.map Prod.fst).Nodup) (h : ∀ m ∈ members, Permuted m.2.1 m.2.2)
    (left : es.Perm (members.map (memberEntry Prod.fst)))
    (right : fs.Perm (members.map (memberEntry Prod.snd))) : Permuted (.map es) (.map fs)

/-- Entries of the same distinct names in any order, their values permuted again. -/
structure Value.PermutedEntries (es fs : List (Key × Value)) : Prop where
  members : ∃ members : List (Text × Value × Value), (members.map Prod.fst).Nodup ∧
    (∀ m ∈ members, m.2.1.Permuted m.2.2) ∧ es.Perm (members.map (memberEntry Prod.fst)) ∧
    fs.Perm (members.map (memberEntry Prod.snd))

/-! ## Sorting members -/

namespace Encode

/-- Sorting the entries of members gives the sorted members, whatever the order. -/
theorem sortedEntries_of_perm {side : Value × Value → Value} {es : List (Key × Value)}
    {members : List (Text × Value × Value)} (distinct : (members.map Prod.fst).Nodup)
    (h : es.Perm (members.map (memberEntry side))) :
    sortedEntries es =
      (members.mergeSort fun a b => textLE a.1 b.1).map fun m => (m.1, side m.2) := by
  have htexts : (es.map fun e => (keyText e.1, e.2)).Perm
      (members.map fun m => (m.1, side m.2)) := by
    have hmap := h.map fun e => (keyText e.1, e.2)
    rwa [List.map_map] at hmap
  have hnodup : ((es.map fun e => (keyText e.1, e.2)).map Prod.fst).Nodup := by
    rw [(htexts.map Prod.fst).nodup_iff, List.map_map]
    exact distinct
  calc sortedEntries es
      = (members.map fun m => (m.1, side m.2)).mergeSort fun a b => textLE a.1 b.1 :=
        sorted_eq_of_perm htexts hnodup
    _ = _ := by
        symm
        apply List.map_mergeSort
        intro a _ b _
        rfl

end Encode

/-! ## Permuted documents are read alike -/

namespace Value

/-- Both sides give an entry of this name, of related values, or none does. -/
theorem PermutedEntries.takeEntry {es fs : List (Key × Value)} (h : PermutedEntries es fs)
    (name : Text) :
    Option.Rel (fun r r' => Permuted r.1 r'.1 ∧ PermutedEntries r.2 r'.2)
      (Encode.takeEntry name es) (Encode.takeEntry name fs) := by
  obtain ⟨members, distinct, hvalues, left, right⟩ := h
  by_cases hname : ∃ m ∈ members, m.1 = name
  · obtain ⟨m, hm, rfl⟩ := hname
    obtain ⟨before, after, rfl⟩ := List.append_of_mem hm
    have hfront : (before ++ m :: after).Perm (m :: (before ++ after)) := List.perm_middle
    have hnodup := (hfront.map Prod.fst).nodup_iff.mp distinct
    simp only [List.map_cons, List.nodup_cons] at hnodup
    -- the name is not among the other members, on either side
    have hothers : ∀ (side : Value × Value → Value) (w : Value),
        ((.text m.1, w) : Key × Value) ∉ (before ++ after).map (memberEntry side) := by
      intro side w hw
      obtain ⟨m', hm', he⟩ := List.mem_map.mp hw
      have ht : m'.1 = m.1 := Key.text.inj (Prod.mk.inj he).1
      exact hnodup.1 (ht ▸ List.mem_map_of_mem hm')
    obtain ⟨rest, hrest, hl⟩ :=
      Encode.takeEntry_of_perm (left.trans (hfront.map _)) (hothers Prod.fst)
    obtain ⟨rest', hrest', hr⟩ :=
      Encode.takeEntry_of_perm (right.trans (hfront.map _)) (hothers Prod.snd)
    rw [hrest, hrest']
    refine .some ⟨hvalues m hm, ⟨before ++ after, hnodup.2, fun m' hm' => ?_, hl, hr⟩⟩
    exact hvalues m' (hfront.mem_iff.mpr (List.mem_cons_of_mem m hm'))
  · have hnone : ∀ {side : Value × Value → Value} {es : List (Key × Value)},
        es.Perm (members.map (memberEntry side)) → Encode.takeEntry name es = none := by
      intro side es hp
      rw [Encode.takeEntry_eq_none_iff]
      intro v hv
      obtain ⟨m, hm, he⟩ := List.mem_map.mp (hp.mem_iff.mp hv)
      exact hname ⟨m, hm, Key.text.inj (Prod.mk.inj he).1⟩
    rw [hnone left, hnone right]
    exact .none

theorem forall₂_of_pairs {items : List (Value × Value)} (h : ∀ p ∈ items, Permuted p.1 p.2) :
    List.Forall₂ Permuted (items.map Prod.fst) (items.map Prod.snd) := by
  simp only [List.forall₂_map_left_iff, List.forall₂_map_right_iff]
  exact List.forall₂_same.mpr h

theorem Permuted.byteValue {v w : Value} (h : Permuted v w) :
    SameEnd EncodeError.SameKind (· = ·) (Encode.byteValue v) (Encode.byteValue w) := by
  cases h with
  | int n => exact .refl .refl (fun _ => rfl) _
  | _ => exact .error (.unexpected _ _ _ _)

theorem Permuted.of_keyValue {type : Ty} {key : Text} {v : Value}
    (h : Encode.keyValue type key = .ok v) : Permuted v v := by
  rcases Encode.eq_of_keyValue h with rfl | ⟨n, rfl⟩ | ⟨x, rfl⟩
  · exact .text key
  · exact .int n
  · exact .float x

theorem Permuted.primitive {v w : Value} (h : Permuted v w) (config : Config) (type : Primitive) :
    Output.Alike EncodeError.SameKind (· = ·) (Encode.primitive config type v)
      (Encode.primitive config type w) := by
  cases h with
  | list items h =>
    have hbytes := Encode.byteItems_alike (fun _ _ hp => Permuted.byteValue hp) (forall₂_of_pairs h)
    exact Encode.primitive_alike_of_items (v := .list _) (w := .list _) rfl rfl
      (fun _ _ _ => hbytes) config type
  | map =>
    cases type with
    | skip length => exact .pure rfl
    | _ => exact .fail (.unexpected _ _ _ _)
  | _ => exact .refl .refl (fun _ => rfl) _

/-- Of a mapping of one member both sides give its name and its value. -/
theorem Permuted.selection {v w : Value} (h : Permuted v w) (name name' : Text) :
    SameEnd EncodeError.SameKind (fun a b => a.1 = b.1 ∧ Permuted a.2 b.2)
      (Encode.selection name v) (Encode.selection name' w) := by
  cases h with
  | text t => exact .ok ⟨rfl, .null⟩
  | @map es fs members distinct h left right =>
    have hl : es.length = members.length := by simpa only [List.length_map] using left.length_eq
    have hr : fs.length = members.length := by simpa only [List.length_map] using right.length_eq
    by_cases hone : members.length = 1
    · obtain ⟨m, rfl⟩ := List.length_eq_one_iff.mp hone
      obtain rfl := List.perm_singleton.mp left
      obtain rfl := List.perm_singleton.mp right
      exact .ok ⟨rfl, h m List.mem_cons_self⟩
    · rw [Encode.selection_of_length_ne (hl ▸ hone), Encode.selection_of_length_ne (hr ▸ hone)]
      exact .error ⟨rfl, nofun⟩
  | _ => exact .error (.unexpected _ _ _ _)

/-- Permuting members is a simulation. -/
theorem Simulation.permuted : Simulation Permuted PermutedEntries where
  keyValue h := .of_keyValue h
  primitive h := h.primitive
  isNull h := by cases h <;> rfl
  selection h := h.selection
  items := by
    intro v w h
    cases h with
    | list items h =>
      refine .some ⟨?_, .ok (forall₂_of_pairs h)⟩
      simp only [Items.count, List.length_map]
    | _ => exact .none
  mapping := by
    intro v w h
    cases h with
    | map members distinct h left right =>
      refine .some ⟨?_, ⟨members, distinct, h, left, right⟩⟩
      simp only [left.length_eq, right.length_eq, List.length_map]
    | _ => exact .none
  takeEntry h name := h.takeEntry name
  length := by
    rintro es fs ⟨members, _, _, left, right⟩
    simp only [left.length_eq, right.length_eq, List.length_map]
  checkKeys := by
    rintro es fs ⟨members, _, _, left, right⟩
    have htexts : ∀ {side : Value × Value → Value} {es : List (Key × Value)},
        es.Perm (members.map (memberEntry side)) → ∀ e ∈ es, ∃ t, e.1 = .text t := by
      intro side es hp e he
      obtain ⟨m, _, rfl⟩ := List.mem_map.mp (hp.mem_iff.mp he)
      exact ⟨m.1, rfl⟩
    rw [Encode.checkKeys_of_texts (htexts left), Encode.checkKeys_of_texts (htexts right)]
  sorted := by
    rintro es fs ⟨members, distinct, h, left, right⟩
    rw [Encode.sortedEntries_of_perm distinct left, Encode.sortedEntries_of_perm distinct right]
    simp only [List.forall₂_map_left_iff, List.forall₂_map_right_iff]
    exact List.forall₂_same.mpr fun m hm => ⟨rfl, h m (List.mem_mergeSort.mp hm)⟩

end Value

/-! ## Encoding permuted documents -/

/-- Documents that differ only in the order of members are encoded to the same bytes, or refused
with one kind. -/
theorem Encoder.encode_agree_of_permuted (e : Encoder) (index : Value) {v w : Value}
    (h : v.Permuted w) :
    Encode.Agree (e.encode index v) (e.encode index w) ∧
      ∀ stack, Encode.Agree (e.run stack index v) (e.run stack index w) := by
  have hwithin : ∀ levels : Nat,
      Encode.Agree (e.encodeWithin levels index v) (e.encodeWithin levels index w) := by
    intro levels
    cases hp : e.schema.rootPosition? index with
    | none =>
      unfold encodeWithin
      rw [hp]
      exact .error (.refl _)
    | some position =>
      obtain rfl := Schema.eq_int_of_rootPosition? hp
      exact encodeWithin_agree (.refl e.schema) .permuted e.config levels rfl h
  exact ⟨hwithin _, fun stack => hwithin _⟩

/-- A pair of maps from texts to bytes. -/
def Schema.mapPair : Schema :=
  build
    [.struct "Pair" [⟨"", .byIndex 1, false, []⟩, ⟨"", .byIndex 1, false, []⟩] none false,
      .map (.immediate .string) (.immediate (.integer ⟨false, .w8⟩ ⟨.decimal, none, none, none⟩))]
    [0] [⟨"Pair", ["left", "right"]⟩, ⟨"", []⟩] none [] []

/-- A pair with the members of both levels in order. -/
def Value.pairInOrder : Value :=
  .map [(.text "left", .map [(.text "x", .int 1), (.text "y", .int 2)]), (.text "right", .map [])]

/-- The same pair with the members of both levels swapped. -/
def Value.pairSwapped : Value :=
  .map [(.text "right", .map []), (.text "left", .map [(.text "y", .int 2), (.text "x", .int 1)])]

theorem Value.pairInOrder_permuted : pairInOrder.Permuted pairSwapped := by
  have hinner : Permuted (.map [(.text "x", .int 1), (.text "y", .int 2)])
      (.map [(.text "y", .int 2), (.text "x", .int 1)]) := by
    refine .map [("x", .int 1, .int 1), ("y", .int 2, .int 2)] (by decide) ?_ (.refl _) ?_
    · intro m hm
      rcases List.mem_pair.mp hm with rfl | rfl <;> exact .int _
    · exact .swap _ _ _
  have hempty : Permuted (.map []) (.map []) :=
    .map [] List.nodup_nil (fun _ hm => nomatch hm) .nil .nil
  refine .map [("left", _, _), ("right", _, _)] (by decide) ?_ (.refl _) (.swap _ _ _)
  intro m hm
  rcases List.mem_pair.mp hm with rfl | rfl
  · exact hinner
  · exact hempty

theorem Encoder.pairInOrder_agree_pairSwapped :
    Value.pairInOrder.Permuted Value.pairSwapped ∧
      Encode.Agree (encode ⟨.mapPair, .default⟩ (.int 0) .pairInOrder)
        (encode ⟨.mapPair, .default⟩ (.int 0) .pairSwapped) :=
  ⟨Value.pairInOrder_permuted,
    (encode_agree_of_permuted ⟨.mapPair, .default⟩ (.int 0) Value.pairInOrder_permuted).1⟩

end BorshWire
