import BorshWire.Proofs.Positions
import BorshWire.Proofs.WireShape

/-!
# Encoding in a context

`Encoder.encode_in_context`: what a visit writes does not depend on what the buffer holds already,
and on the depth only through what the limit leaves. So a part that is reached through an entry of
the type table is written as if it were encoded alone, under a limit that is less by its depth, and
tuples of one field around a type only use up depth.

What a step puts out comes after what the buffer holds (`Output.onto`), and the limit is handed down
through the levels (`Encode.visitAt_eq`).
-/

namespace BorshWire

/-! ## Steps with a buffer -/

namespace Output

variable {ε ε' α β : Type}

/-- A step taken with a buffer: what the buffer holds then, and how the step ends. -/
def onto (x : Output ε α) (buffer : List UInt8) : List UInt8 × Except ε α :=
  (buffer ++ x.bytes, x.outcome)

theorem Alike.onto {E : ε → ε' → Prop} {A : α → β → Prop} {x : Output ε α} {y : Output ε' β}
    (h : Alike E A x y) (buffer : List UInt8) :
    (x.onto buffer).1 = buffer ++ (y.onto []).1 ∧ SameEnd E A (x.onto buffer).2 (y.onto []).2 :=
  ⟨congrArg (buffer ++ ·) h.bytes, h.outcome⟩

end Output

/-! ## Visits at a depth -/

/-- What limits leave below a depth: less depth, and the same length of checksummed texts. -/
structure Config.Leaves (c : Config) (depth : Nat) (c' : Config) : Prop where
  depth : c'.maxDepth + depth = c.maxDepth
  length : c'.maxBech32Length = c.maxBech32Length

namespace Encode

/-- A visit at a depth, with the levels that the limit leaves there. -/
def visitAt (e : Encoder) (depth : Nat) : Visit := visit e (e.config.maxDepth + 1 - depth)

/-- A visit beyond the limit is refused; any other goes on one deeper. -/
theorem visitAt_eq (e : Encoder) (depth : Nat) :
    visitAt e depth =
      if e.config.maxDepth < depth then fun _ _ _ => Output.fail (.tooDeep e.config.maxDepth)
      else step e (visitAt e (depth + 1)) := by
  unfold visitAt
  split
  · rename_i hdepth
    rw [Nat.sub_eq_zero_of_le hdepth]
    rfl
  · rename_i hdepth
    rw [Nat.sub_add_comm (Nat.not_lt.mp hdepth), Nat.add_sub_add_right]
    rfl

theorem visitAt_of_le {e : Encoder} {depth : Nat} (h : depth ≤ e.config.maxDepth) :
    visitAt e depth = step e (visitAt e (depth + 1)) := by
  rw [visitAt_eq, if_neg (Nat.not_lt.mpr h)]

theorem not_visitAt_yields {e : Encoder} {depth : Nat} (h : e.config.maxDepth < depth) {type : Ty}
    {link : Link} {v : Value} {bytes : List UInt8} :
    ¬(visitAt e depth type link v).Yields bytes () := by
  rw [visitAt_eq, if_pos h]
  exact Output.not_yields_fail

section Levels

variable {s : Schema} {c c' : Config}

/-- A level over alike visits: of the limits it looks only at the length of checksummed texts. -/
theorem step_congr (hlength : c.maxBech32Length = c'.maxBech32Length) {near far : Visit}
    (h : ∀ type link v, Output.Alike EncodeError.SameKind (· = ·) (near type link v)
      (far type link v)) (type : Ty) (link : Link) (v : Value) :
    Output.Alike EncodeError.SameKind (· = ·) (step ⟨s, c⟩ near type link v)
      (step ⟨s, c'⟩ far type link v) := by
  have hnext : NextAlike s s (· = ·) (· = ·) near far := by
    rintro l _ t₁ t₂ w _ rfl h₁ h₂ _ rfl
    obtain rfl := Schema.eq_of_resolve h₁ h₂
    exact h t₁ l w
  have hs := Schema.Bisimilar.refl s
  cases Ty.SameWire.refl type with
  | @primitive p _ _ =>
    have hsame : primitive c p v = primitive c' p v := by
      unfold primitive
      rw [hlength]
    show Output.Alike _ _ (primitive c p v) (primitive c' p v)
    rw [hsame]
    exact .refl .refl (fun _ => rfl) _
  | enumeration h => exact enumeration_alike hs .eq hnext h rfl rfl
  | struct h => exact struct_alike hs .eq hnext h rfl rfl
  | tuple h => exact tuple_alike hs .eq hnext h rfl
  | option h => exact option_alike hs .eq hnext h rfl
  | array length h => exact array_alike hs .eq hnext length h rfl
  | vec h => exact vec_alike hs .eq hnext h rfl
  | map hk hv => exact map_alike hs .eq hnext hk hv rfl

/-- Walks over the same number of levels are alike, whatever limit that number is left of. -/
theorem visit_congr (hlength : c.maxBech32Length = c'.maxBech32Length) (levels : Nat) (type : Ty)
    (link : Link) (v : Value) :
    Output.Alike EncodeError.SameKind (· = ·) (visit ⟨s, c⟩ levels type link v)
      (visit ⟨s, c'⟩ levels type link v) := by
  induction levels generalizing type link v with
  | zero => exact .fail ⟨rfl, nofun⟩
  | succ levels ih => exact step_congr hlength ih type link v

/-- A visit at a depth is like one at the start, under what the limits leave. -/
theorem visitAt_alike {depth : Nat} (h : c.Leaves depth c') (type : Ty) (link : Link) (v : Value) :
    Output.Alike EncodeError.SameKind (· = ·) (visitAt ⟨s, c⟩ depth type link v)
      (visitAt ⟨s, c'⟩ 0 type link v) := by
  have hlevels : c.maxDepth + 1 - depth = c'.maxDepth + 1 := by
    have := h.depth
    omega
  show Output.Alike _ _ (visit ⟨s, c⟩ (c.maxDepth + 1 - depth) type link v) _
  rw [hlevels]
  exact visit_congr h.length.symm _ type link v

/-- A level writes every part as it is written at the start, under what the limits leave. -/
theorem visitAt_alike_step {depth : Nat} (h : c.Leaves (depth + 1) c') (type : Ty) (link : Link)
    (v : Value) :
    Output.Alike EncodeError.SameKind (· = ·) (visitAt ⟨s, c⟩ depth type link v)
      (step ⟨s, c⟩ (visitAt ⟨s, c'⟩ 0) type link v) := by
  have hdepth : depth ≤ c.maxDepth := by
    have := h.depth
    omega
  rw [visitAt_of_le (e := ⟨s, c⟩) hdepth]
  exact step_congr rfl (visitAt_alike h) type link v

end Levels

/-! ## Positions with their depths -/

/-- A value stands at a position of the value that is encoded, this many links below the root. -/
inductive StandsAt (s : Schema) (index v : Value) : Nat → Ty → Link → Value → Prop where
  | root {position : Nat} {type : Ty} (hindex : s.rootPosition? index = some position)
    (htype : s.types[position]? = some type) : StandsAt s index v 0 type (.byIndex position) v
  | down {depth : Nat} {type childType : Ty} {link child : Link} {w x : Value}
    (h : StandsAt s index v depth type link w) (hdown : HandsDown s type link w child x)
    (hr : s.resolve child = .ok childType) : StandsAt s index v (depth + 1) childType child x

theorem StandsAt.resolve {s : Schema} {index v w : Value} {depth : Nat} {type : Ty} {link : Link}
    (h : StandsAt s index v depth type link w) : s.resolve link = .ok type := by
  cases h with
  | root _ htype => exact Schema.resolve_byIndex_iff.mpr htype
  | down _ _ hr => exact hr

end Encode

namespace Encoder

open Encode (visitAt StandsAt)

/-- The limits always leave room for a second level. -/
theorem two_le_levels (c : Config) : 2 ≤ c.maxDepth + 1 := Nat.succ_le_succ c.maxDepth_pos

theorem two_le_room (c : Config) {stack : Stack} (h : 2 ≤ stack.levels) :
    2 ≤ min (c.maxDepth + 1) stack.levels := Nat.le_min.mpr ⟨two_le_levels c, h⟩

theorem encodeWithin_byIndex {e : Encoder} {j : Nat} {type : Ty} (h : e.schema.types[j]? = some type)
    (levels : Nat) (v : Value) :
    e.encodeWithin levels (.int j) v = (Encode.visit e levels type (.byIndex j) v).result := by
  rw [encodeWithin_int, h]

theorem encode_byIndex {e : Encoder} {j : Nat} {type : Ty} (h : e.schema.types[j]? = some type)
    (v : Value) : e.encode (.int j) v = (visitAt e 0 type (.byIndex j) v).result :=
  encodeWithin_byIndex h _ v

/-- Every position of a value that is encoded is visited at its depth. -/
theorem yields_of_standsAt {e : Encoder} {index v : Value} {bytes : List UInt8}
    (h : e.encode index v = .ok bytes) {depth : Nat} {type : Ty} {link : Link} {w : Value}
    (hstands : StandsAt e.schema index v depth type link w) :
    ∃ own, (visitAt e depth type link w).Yields own () ∧ own <:+: bytes := by
  induction hstands with
  | root hindex htype =>
    obtain rfl := Schema.eq_int_of_rootPosition? hindex
    rw [encode_byIndex htype] at h
    exact ⟨bytes, Output.result_eq_ok_iff_yields.mp h, List.infix_rfl⟩
  | @down depth _ _ _ _ _ _ _ hdown hr ih =>
    obtain ⟨own, hown, hwithin⟩ := ih
    by_cases hdepth : e.config.maxDepth < depth
    · exact absurd hown (Encode.not_visitAt_yields hdepth)
    · rw [Encode.visitAt_of_le (Nat.not_lt.mp hdepth)] at hown
      obtain ⟨part, _, hpart, hinfix⟩ := Encode.step_includes hdown own () hown
      rw [Encode.follow_of_resolve hr] at hpart
      exact ⟨part, hpart, hinfix.trans hwithin⟩

end Encoder

/-! ## Tuples of one field -/

/-- Between an entry of the type table and another one there are this many tuples of one field. -/
inductive Schema.Wraps (s : Schema) (j : Nat) : Nat → Nat → Prop where
  | bare {type : Ty} (h : s.types[j]? = some type) : Wraps s j 0 j
  | wrap {count i next : Nat} {field : UnnamedField} {template : Option Text} {peekable : Bool}
    (h : s.types[i]? = some (.tuple [field] template peekable))
    (hfield : field.type = .byIndex next) (hnext : Wraps s j count next) :
    Wraps s j (count + 1) i

theorem Schema.Wraps.exists_types {s : Schema} {j count i : Nat} (h : s.Wraps j count i) :
    (∃ outer, s.types[i]? = some outer) ∧ ∃ inner, s.types[j]? = some inner := by
  induction h with
  | bare h => exact ⟨⟨_, h⟩, ⟨_, h⟩⟩
  | wrap h _ _ ih => exact ⟨⟨_, h⟩, ih.2⟩

namespace Encode

/-- Tuples of one field write what is in them, so many levels deeper and through its own link. -/
theorem visitAt_of_wraps {e : Encoder} {j count i depth : Nat} (h : e.schema.Wraps j count i)
    (hdepth : depth + count ≤ e.config.maxDepth) {outer inner : Ty}
    (houter : e.schema.types[i]? = some outer) (hinner : e.schema.types[j]? = some inner)
    (v : Value) :
    visitAt e depth outer (.byIndex i) v = visitAt e (depth + count) inner (.byIndex j) v := by
  induction h generalizing depth outer with
  | bare _ =>
    obtain rfl := Option.some.inj (houter.symm.trans hinner)
    rfl
  | @wrap count i next field template peekable htype hfield hnext ih =>
    obtain rfl := Option.some.inj (houter.symm.trans htype)
    obtain ⟨type, hnextType⟩ := hnext.exists_types.1
    have hresolve : e.schema.resolve field.type = .ok type := by
      rw [hfield]
      exact Schema.resolve_byIndex_iff.mpr hnextType
    calc visitAt e depth (.tuple [field] template peekable) (.byIndex i) v
        = follow e.schema (visitAt e (depth + 1)) field.type v := by
          rw [visitAt_of_le (by omega)]
          rfl
      _ = visitAt e (depth + 1) type (.byIndex next) v := by
          rw [follow_of_resolve hresolve, hfield]
      _ = visitAt e (depth + 1 + count) inner (.byIndex j) v := ih (by omega) hnextType
      _ = visitAt e (depth + (count + 1)) inner (.byIndex j) v := by
          rw [Nat.add_right_comm, Nat.add_assoc]

end Encode

namespace Encoder

open Encode (step visitAt StandsAt Agree)

/-- Encodings do not depend on their context. A visit at a depth appends to any buffer what a visit
at the start writes into an empty one under what the limits leave, and both end alike; so a level
writes its parts as if they were encoded alone, each part of a value that is encoded is there as
its own encoding, and tuples of one field around an entry of the type table encode like this entry,
whose names are the ones that are looked up. -/
theorem encode_in_context (s : Schema) (c : Config) :
    (∀ depth c', c.Leaves depth c' → ∀ type link v buffer,
      ((visitAt ⟨s, c⟩ depth type link v).onto buffer).1 =
          buffer ++ ((visitAt ⟨s, c'⟩ 0 type link v).onto []).1 ∧
        SameEnd EncodeError.SameKind (· = ·) ((visitAt ⟨s, c⟩ depth type link v).onto buffer).2
          ((visitAt ⟨s, c'⟩ 0 type link v).onto []).2) ∧
    (∀ depth c', c.Leaves (depth + 1) c' →
      (∀ type link v, Output.Alike EncodeError.SameKind (· = ·) (visitAt ⟨s, c⟩ depth type link v)
        (step ⟨s, c⟩ (visitAt ⟨s, c'⟩ 0) type link v)) ∧
      ∀ j type v, s.types[j]? = some type →
        (visitAt ⟨s, c'⟩ 0 type (.byIndex j) v).result = encode ⟨s, c'⟩ (.int j) v) ∧
    (∀ index root bytes, encode ⟨s, c⟩ index root = .ok bytes →
      ∀ depth c' j type v, c.Leaves depth c' → StandsAt s index root depth type (.byIndex j) v →
        ∃ own, encode ⟨s, c'⟩ (.int j) v = .ok own ∧ own <:+: bytes) ∧
    ∀ count c' i j, c.Leaves count c' → s.Wraps j count i → ∀ v,
      Agree (encode ⟨s, c⟩ (.int i) v) (encode ⟨s, c'⟩ (.int j) v) ∧
      ∀ outer inner, s.types[i]? = some outer → s.types[j]? = some inner →
        visitAt ⟨s, c⟩ 0 outer (.byIndex i) v = visitAt ⟨s, c⟩ count inner (.byIndex j) v := by
  refine ⟨fun depth c' h type link v => (Encode.visitAt_alike h type link v).onto,
    fun depth c' h =>
      ⟨Encode.visitAt_alike_step h, fun j type v htype => (encode_byIndex htype v).symm⟩,
    fun index root bytes hbytes depth c' j type v h hstands => ?_, fun count c' i j h hwraps v => ?_⟩
  · obtain ⟨own, hown, hwithin⟩ := yields_of_standsAt hbytes hstands
    have htype := Schema.resolve_byIndex_iff.mp hstands.resolve
    have halike := (Encode.visitAt_alike (s := s) h type (.byIndex j) v).result
    rw [Output.result_eq_ok_iff_yields.mpr hown, ← encode_byIndex (e := ⟨s, c'⟩) htype] at halike
    generalize encode ⟨s, c'⟩ (.int j) v = r at halike
    obtain ⟨rfl⟩ | _ := halike
    exact ⟨own, rfl, hwithin⟩
  · have hdepth : 0 + count ≤ c.maxDepth := by
      have := h.depth
      omega
    have hvisit : ∀ outer inner, s.types[i]? = some outer → s.types[j]? = some inner →
        visitAt ⟨s, c⟩ 0 outer (.byIndex i) v = visitAt ⟨s, c⟩ count inner (.byIndex j) v := by
      intro outer inner houter hinner
      have heq := Encode.visitAt_of_wraps (e := ⟨s, c⟩) hwraps hdepth houter hinner v
      rwa [Nat.zero_add] at heq
    refine ⟨?_, hvisit⟩
    obtain ⟨⟨outer, houter⟩, inner, hinner⟩ := hwraps.exists_types
    rw [encode_byIndex (e := ⟨s, c⟩) houter, encode_byIndex (e := ⟨s, c'⟩) hinner,
      hvisit outer inner houter hinner]
    exact (Encode.visitAt_alike h inner (.byIndex j) v).result

end Encoder

/-- A side in a box in a box. Only the side has names. -/
def Schema.boxedSides : Schema :=
  build [.tuple [⟨.byIndex 1, false, ""⟩] none false, .tuple [⟨.byIndex 2, false, ""⟩] none false,
    .enumeration "Side" [⟨"Left", 0, none, none⟩, ⟨"Right", 1, none, none⟩] false] [0]
    [⟨"", []⟩, ⟨"", []⟩, ⟨"Side", ["left", "right"]⟩] none [] []

/-- The limits under which a boxed side is encoded. -/
def Config.five : Config := { default with maxDepth := 5, maxDepth_pos := Nat.succ_pos 4 }

/-- What they leave in both boxes. -/
def Config.three : Config := { default with maxDepth := 3, maxDepth_pos := Nat.succ_pos 2 }

theorem Encoder.boxedSide_in_context :
    Config.five.Leaves 2 .three ∧ Schema.boxedSides.Wraps 2 2 0 ∧
      encode ⟨.boxedSides, .three⟩ (.int 2) (.text "right") = .ok [1] ∧
      Encode.Agree (encode ⟨.boxedSides, .five⟩ (.int 0) (.text "right"))
        (encode ⟨.boxedSides, .three⟩ (.int 2) (.text "right")) ∧
      ((Encode.visitAt ⟨.boxedSides, .five⟩ 2 (.option (.byIndex 2)) .placeholder
        (.text "right")).onto [7]).1 = [7, 1, 1] := by
  have hleaves : Config.five.Leaves 2 .three := ⟨rfl, rfl⟩
  have hwraps : Schema.boxedSides.Wraps 2 2 0 := .wrap rfl rfl (.wrap rfl rfl (.bare rfl))
  have h := encode_in_context .boxedSides .five
  exact ⟨hleaves, hwraps, rfl, (h.2.2.2 2 _ 0 2 hleaves hwraps (.text "right")).1,
    (h.1 2 _ hleaves (.option (.byIndex 2)) .placeholder (.text "right") [7]).1⟩

end BorshWire
