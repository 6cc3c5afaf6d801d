import BorshWire.Encode.Walk
import BorshWire.Proofs.Simulation.Output

/-!
# The depth limit only cuts

`encode_survives_of_deeper`: under a greater depth limit an encoding ends as before, with the same bytes or
the same refusal, unless the smaller limit cut it off. A walk over fewer levels is the walk over
more levels or ends at its limit (`Output.CutOf`), whatever the schema leads back to.
-/

namespace BorshWire

/-! ## Steps that are cut off -/

namespace Output

variable {α β : Type}

/-- The first step is the second one, or it ended at a depth limit. -/
inductive CutOf : Output EncodeError α → Output EncodeError α → Prop where
  | whole (x : Output EncodeError α) : CutOf x x
  | short (bytes : List UInt8) (limit : Nat) (y : Output EncodeError α) :
    CutOf ⟨bytes, .error (.tooDeep limit)⟩ y

namespace CutOf

theorem bind {x y : Output EncodeError α} {f g : α → Output EncodeError β} (h : CutOf x y)
    (hfg : ∀ a, CutOf (f a) (g a)) : CutOf (x >>= f) (y >>= g) := by
  cases h with
  | short bytes limit y => exact .short bytes limit _
  | whole x =>
    obtain ⟨bytes, outcome⟩ := x
    cases outcome with
    | error e => exact .whole _
    | ok a =>
      -- only what comes after the bytes of `x` can be cut
      have hrest := hfg a
      simp only [bind_eq, andThen]
      generalize f a = rest, g a = rest' at hrest
      cases hrest with
      | whole rest => exact .whole _
      | short bytes' limit rest' => exact .short _ limit _

theorem after (x : Output EncodeError α) {f g : α → Output EncodeError β}
    (hfg : ∀ a, CutOf (f a) (g a)) : CutOf (x >>= f) (x >>= g) := (whole x).bind hfg

theorem forEach {f g : α → Output EncodeError Unit} (hfg : ∀ a, CutOf (f a) (g a)) (xs : List α) :
    CutOf (Output.forEach f xs) (Output.forEach g xs) := by
  induction xs with
  | nil => exact .whole _
  | cons a rest ih => exact (hfg a).bind fun _ => ih

theorem forItems {f g : Value → Output EncodeError Unit} (hfg : ∀ v, CutOf (f v) (g v))
    (refuse : Unreadable → EncodeError) (items : Items) :
    CutOf (Write.forItems refuse items f) (Write.forItems refuse items g) := by
  rw [Write.forItems_eq_forEach, Write.forItems_eq_forEach]
  exact after _ fun values => forEach hfg values

theorem result {x y : Output EncodeError Unit} (h : CutOf x y) :
    (∃ limit, x.result = .error (.tooDeep limit)) ∨ x.result = y.result := by
  cases h with
  | whole x => exact .inr rfl
  | short bytes limit y => exact .inl ⟨limit, rfl⟩

end CutOf

end Output

/-! ## One level -/

namespace Encode

open Output (CutOf)

section Level

variable {s : Schema} {near far : Visit}
  (hnext : ∀ type link v, CutOf (near type link v) (far type link v))

include hnext in
theorem follow_cutOf (link : Link) (v : Value) :
    CutOf (follow s near link v) (follow s far link v) :=
  .after _ fun type => hnext type link v

include hnext in
theorem payload_cutOf (name : Text) (variant : Variant) (v : Value) :
    CutOf (payload s near name variant v) (payload s far name variant v) := by
  unfold payload
  cases variant.payload with
  | none => exact .whole _
  | some link =>
    cases v.isNull with
    | true => exact .whole _
    | false => exact follow_cutOf hnext link v

include hnext in
theorem enumeration_cutOf (name : Text) (variants : List Variant) (link : Link) (v : Value) :
    CutOf (enumeration s near name variants link v) (enumeration s far name variants link v) := by
  refine .after _ fun (key, inner) => ?_
  dsimp only
  cases s.table? link with
  | none => exact .whole _
  | some table =>
    dsimp only
    cases variantOf? table variants key with
    | none => exact .whole _
    | some variant => exact .after _ fun _ => payload_cutOf hnext name variant inner

include hnext in
theorem fieldsOf_cutOf (name : Text) (fields : List NamedField) (names : List Text)
    (entries : List (Key × Value)) :
    CutOf (fieldsOf s near name fields names entries) (fieldsOf s far name fields names entries) := by
  induction fields generalizing names entries with
  | nil => exact .whole _
  | cons field fields ih =>
    cases names with
    | nil => exact .whole _
    | cons first names =>
      unfold fieldsOf
      cases takeEntry first entries with
      | none => exact .whole _
      | some r => exact (follow_cutOf hnext field.type r.1).bind fun _ => ih names r.2

include hnext in
theorem struct_cutOf (name : Text) (fields : List NamedField) (link : Link) (v : Value) :
    CutOf (struct s near name fields link v) (struct s far name fields link v) := by
  unfold struct
  cases v.mapping? with
  | none => exact .whole _
  | some m =>
    dsimp only
    cases s.table? link with
    | none => exact .whole _
    | some table =>
      dsimp only
      by_cases hlt : table.names.length < fields.length
      · rw [if_pos hlt, if_pos hlt]
        exact .whole _
      · rw [if_neg hlt, if_neg hlt]
        exact (fieldsOf_cutOf hnext name fields table.names m.entries).bind fun _ => .whole _

include hnext in
theorem positions_cutOf (fields : List UnnamedField) (vs : List Value) :
    CutOf (positions s near fields vs) (positions s far fields vs) := by
  induction fields generalizing vs with
  | nil => exact .whole _
  | cons field fields ih =>
    cases vs with
    | nil => exact .whole _
    | cons v vs => exact (follow_cutOf hnext field.type v).bind fun _ => ih vs

include hnext in
theorem tupleItems_cutOf (fields : List UnnamedField) (v : Value) :
    CutOf (tupleItems s near fields v) (tupleItems s far fields v) := by
  unfold tupleItems
  cases v.items? with
  | none => exact .whole _
  | some items =>
    refine .after _ fun count => ?_
    by_cases hlen : count = fields.length
    · rw [if_pos hlen, if_pos hlen]
      exact .after _ fun values => positions_cutOf hnext fields values
    · rw [if_neg hlen, if_neg hlen]
      exact .whole _

include hnext in
theorem tuple_cutOf (fields : List UnnamedField) (v : Value) :
    CutOf (tuple s near fields v) (tuple s far fields v) := by
  match fields with
  | [] => exact tupleItems_cutOf hnext [] v
  | [field] => exact follow_cutOf hnext field.type v
  | first :: second :: rest => exact tupleItems_cutOf hnext (first :: second :: rest) v

include hnext in
theorem option_cutOf (item : Link) (v : Value) :
    CutOf (option s near item v) (option s far item v) := by
  unfold option
  cases v.isNull with
  | true => exact .whole _
  | false => exact .after _ fun _ => follow_cutOf hnext item v

include hnext in
theorem array_cutOf (length : Nat) (item : Link) (v : Value) :
    CutOf (array s near length item v) (array s far length item v) := by
  unfold array
  cases v.items? with
  | none => exact .whole _
  | some items =>
    refine .after _ fun count => ?_
    by_cases hlen : count = length
    · rw [if_pos hlen, if_pos hlen]
      exact .after _ fun type => .forItems (hnext type item) _ items
    · rw [if_neg hlen, if_neg hlen]
      exact .whole _

include hnext in
theorem vec_cutOf (item : Link) (v : Value) : CutOf (vec s near item v) (vec s far item v) := by
  unfold vec
  cases v.items? with
  | none => exact .whole _
  | some items =>
    refine .after _ fun _ => .after _ fun _ => .after _ fun type => .after _ fun _ => ?_
    exact .forItems (hnext type item) _ items

include hnext in
theorem map_cutOf (key value : Link) (v : Value) :
    CutOf (map s near key value v) (map s far key value v) := by
  unfold map
  cases v.mapping? with
  | none => exact .whole _
  | some m =>
    refine .after _ fun _ => .after _ fun _ => .after _ fun keyType => .after _ fun valueType =>
      .after _ fun _ => .after _ fun _ => .forEach (fun entry => .after _ fun k => ?_) _
    exact (hnext keyType key k).bind fun _ => hnext valueType value entry.2

include hnext in
/-- One level of the walk, one case for each type constructor. Of the limits a level itself looks
only at the length of checksummed texts. -/
theorem step_cutOf {c d : Config} (hlength : c.maxBech32Length = d.maxBech32Length) (type : Ty)
    (link : Link) (v : Value) :
    CutOf (step ⟨s, c⟩ near type link v) (step ⟨s, d⟩ far type link v) := by
  cases type with
  | primitive p =>
    have hsame : primitive c p v = primitive d p v := by
      unfold primitive
      rw [hlength]
    show CutOf (primitive c p v) (primitive d p v)
    rw [hsame]
    exact .whole _
  | enumeration name variants _ => exact enumeration_cutOf hnext name variants link v
  | struct name fields _ _ => exact struct_cutOf hnext name fields link v
  | tuple fields _ _ => exact tuple_cutOf hnext fields v
  | option item => exact option_cutOf hnext item v
  | array length item => exact array_cutOf hnext length item v
  | vec item => exact vec_cutOf hnext item v
  | map key value => exact map_cutOf hnext key value v

end Level

/-! ## The whole walk -/

theorem visit_cutOf {s : Schema} {c d : Config} (hlength : c.maxBech32Length = d.maxBech32Length)
    {levels levels' : Nat} (hle : levels ≤ levels') (type : Ty) (link : Link) (v : Value) :
    CutOf (visit ⟨s, c⟩ levels type link v) (visit ⟨s, d⟩ levels' type link v) := by
  induction levels generalizing levels' type link v with
  | zero => exact .short [] c.maxDepth _
  | succ levels ih =>
    cases levels' with
    | zero => exact absurd hle (Nat.not_succ_le_zero levels)
    | succ levels' =>
      exact step_cutOf (fun type link v => ih (Nat.le_of_succ_le_succ hle) type link v) hlength
        type link v

/-- What becomes of an encoding under a greater depth limit: bytes stay the same, and so does every
refusal but that of being too deep; and what is too deep then was too deep before. -/
structure Survives (r r' : Except EncodeError (List UInt8)) : Prop where
  bytes : ∀ bytes, r = .ok bytes → r' = .ok bytes
  refusal : ∀ err, r = .error err → err.kind? ≠ some .recursionLimit → r' = .error err
  tooDeep : RefusedWith r' .recursionLimit → RefusedWith r .recursionLimit

end Encode

namespace Encoder

open Encode (Survives)

/-- An encoding over fewer levels survives in that over more levels. -/
theorem encodeWithin_survives {s : Schema} {c d : Config}
    (hlength : c.maxBech32Length = d.maxBech32Length) {levels levels' : Nat}
    (hle : levels ≤ levels') (index v : Value) :
    Survives (encodeWithin ⟨s, c⟩ levels index v) (encodeWithin ⟨s, d⟩ levels' index v) := by
  have hcases : (∃ limit, encodeWithin ⟨s, c⟩ levels index v = .error (.tooDeep limit)) ∨
      encodeWithin ⟨s, c⟩ levels index v = encodeWithin ⟨s, d⟩ levels' index v := by
    unfold encodeWithin
    dsimp only
    cases s.rootPosition? index with
    | none => exact .inr rfl
    | some position =>
      dsimp only
      cases s.types[position]? with
      | none => exact .inr rfl
      | some type => exact (Encode.visit_cutOf hlength hle type (.byIndex position) v).result
  rcases hcases with ⟨limit, hcut⟩ | hsame
  · rw [hcut]
    refine ⟨nofun, fun err herr hkind => ?_, fun _ => ⟨_, rfl, rfl⟩⟩
    obtain rfl := Except.error.inj herr
    exact absurd rfl hkind
  · rw [hsame]
    exact ⟨fun _ h => h, fun _ h _ => h, fun h => h⟩

/-- A greater depth limit changes nothing but that less is cut off, whether or not the schema leads
back to itself: the bytes stay, every refusal of another kind stays with its message, and what is
too deep for the greater limit is too deep for the smaller one. -/
theorem encode_survives_of_deeper {s : Schema} {c d : Config} (hdepth : c.maxDepth ≤ d.maxDepth)
    (hlength : c.maxBech32Length = d.maxBech32Length) (index v : Value) :
    Survives (encode ⟨s, c⟩ index v) (encode ⟨s, d⟩ index v) ∧
      ∀ stack, Survives (run ⟨s, c⟩ stack index v) (run ⟨s, d⟩ stack index v) := by
  have hlevels : c.maxDepth + 1 ≤ d.maxDepth + 1 := Nat.succ_le_succ hdepth
  refine ⟨encodeWithin_survives hlength hlevels index v, fun stack => ?_⟩
  have hroom : min (c.maxDepth + 1) stack.levels ≤ min (d.maxDepth + 1) stack.levels :=
    Nat.le_min.mpr ⟨Nat.le_trans (Nat.min_le_left _ _) hlevels, Nat.min_le_right _ _⟩
  exact encodeWithin_survives hlength hroom index v

end Encoder

/-- Trees as lists of trees. -/
def Schema.trees : Schema := build [.vec (.byIndex 0)] [0] [⟨"", []⟩] none [] []

/-- A tree of height two. -/
def Value.smallTree : Value := .list [.list [], .list [.list []]]

theorem Encoder.smallTree_survives :
    encode ⟨.trees, ⟨2, 90, by decide, by decide⟩⟩ (.int 0) .smallTree =
        .ok [2, 0, 0, 0, 0, 0, 0, 0, 1, 0, 0, 0, 0, 0, 0, 0] ∧
      encode ⟨.trees, .default⟩ (.int 0) .smallTree =
        .ok [2, 0, 0, 0, 0, 0, 0, 0, 1, 0, 0, 0, 0, 0, 0, 0] :=
  ⟨rfl, (encode_survives_of_deeper (d := .default) (by decide) rfl (.int 0) .smallTree).1.bytes _
    rfl⟩

end BorshWire
