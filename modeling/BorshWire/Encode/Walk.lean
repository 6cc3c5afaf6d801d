import BorshWire.Config
import BorshWire.Encode.Scalar

/-!
# The walk over types and values

A value is encoded by walking along the links of the schema and the parts of the value together.
The walk at one level, `step`, takes the walk at the next level as an argument; `visit` ties the
knot for a bounded number of levels, and going deeper is an error. Fields and variants are
written in the order of the schema and map entries in the order of their key texts, whatever the
order of the value.
-/

namespace BorshWire

/-- A schema with the limits under which values are encoded against it. -/
structure Encoder where
  schema : Schema
  config : Config

namespace Encode

/-- Encodes a value against a type that was reached through a link. -/
abbrev Visit := Ty → Link → Value → Output EncodeError Unit

/-- A primitive write as a part of the walk. -/
def written (w : Write.Step) : Output EncodeError Unit := w.mapError .write

theorem written_yields_iff {w : Write.Step} {bytes : List UInt8} :
    (written w).Yields bytes () ↔ w.Yields bytes () :=
  Output.yields_mapError_iff

theorem written_emit_yields_iff {own bytes : List UInt8} :
    (written (Output.emit own)).Yields bytes () ↔ own = bytes :=
  written_yields_iff.trans Output.yields_emit_iff

/-- Follows a link and goes on with the type that it leads to. -/
def follow (s : Schema) (next : Visit) (link : Link) (v : Value) : Output EncodeError Unit := do
  let type ← Output.ofExcept ((s.resolve link).mapError .unresolved)
  next type link v

theorem follow_of_resolve {s : Schema} {link : Link} {type : Ty} (h : s.resolve link = .ok type)
    (next : Visit) (v : Value) : follow s next link v = next type link v := by
  rw [follow, h]
  rfl

theorem follow_yields_iff {s : Schema} {next : Visit} {link : Link} {v : Value}
    {bytes : List UInt8} :
    (follow s next link v).Yields bytes () ↔
      ∃ type, s.resolve link = .ok type ∧ (next type link v).Yields bytes () := by
  rw [follow, Output.yields_ofExcept_bind_iff]
  exact exists_congr fun type => and_congr_left fun _ => Output.mapError_eq_ok_iff

/-- Writes a primitive. -/
def primitive (config : Config) (type : Primitive) (v : Value) : Output EncodeError Unit :=
  match type with
  | .integer kind _ => do
    let n ← Output.ofExcept (integerValue kind v)
    written (Write.integer kind n)
  | .byteArray length display => do
    let data ← Output.ofExcept (byteString "byte array" config.maxBech32Length display v)
    if data.length = length then written (Write.bytes data)
    else Output.fail (.wrongLength length data.length)
  | .byteVec display => do
    let data ← Output.ofExcept (byteString "byte vector" config.maxBech32Length display v)
    Output.ofExcept (checkCount data.length)
    written (Write.count data.length)
    written (Write.bytes data)
  | .float32 => do
    let x ← Output.ofExcept (floatValue "f32" v)
    written (Write.single (.float x))
  | .float64 => do
    let x ← Output.ofExcept (floatValue "f64" v)
    written (Write.double (.float x))
  | .string =>
    match v with
    | .text t => written (Write.string t)
    | v => Output.fail (.unexpected "String" v)
  | .boolean => do
    let b ← Output.ofExcept (boolValue v)
    written (Write.boolean b)
  | .skip _ => pure ()

/-- The name of the variant that a value selects, and its payload; a bare name has none. -/
def selection (container : Text) (v : Value) : Except EncodeError (Key × Value) :=
  match v with
  | .text t => .ok (.text t, .null)
  | v =>
    match v.mapping? with
    | none => .error (.unexpected (Text.concat ["enum ", container]) v)
    | some m =>
      match m.count with
      | .error reason => .error (.uncountable reason)
      | .ok 1 =>
        match m.entries with
        | entry :: _ => .ok entry
        | [] => .error .noVariant
      | .ok count => .error (.notSingleVariant count)

theorem selection_of_length_ne {container : Text} {entries : List (Key × Value)}
    (h : entries.length ≠ 1) :
    selection container (.map entries) = .error (.notSingleVariant entries.length) := by
  match entries, h with
  | [], _ => rfl
  | [_], h => exact absurd rfl h
  | _ :: _ :: _, _ => rfl

/-- The variant of a name: its place is that of the name in the table. -/
def variantOf? (table : NameTable) (variants : List Variant) (name : Key) : Option Variant :=
  match name with
  | .text t => (table.position? t).bind fun position => variants[position]?
  | _ => none

/-- Writes the payload of a variant: there has to be one exactly if the variant declares it. -/
def payload (s : Schema) (next : Visit) (container : Text) (variant : Variant) (inner : Value) :
    Output EncodeError Unit :=
  match variant.payload with
  | some link =>
    if inner.isNull then Output.fail (.missingPayload container variant.name)
    else follow s next link inner
  | none => if inner.isNull then pure () else Output.fail (.unused inner)

/-- Writes an enum: the discriminant of the selected variant, then its payload. -/
def enumeration (s : Schema) (next : Visit) (container : Text) (variants : List Variant)
    (link : Link) (v : Value) : Output EncodeError Unit := do
  let (name, inner) ← Output.ofExcept (selection container v)
  match s.table? link with
  | none => Output.fail (.noNames container)
  | some table =>
    match variantOf? table variants name with
    | none => Output.fail (.unknownVariant name container)
    | some variant => do
      written (Write.byte variant.discriminant)
      payload s next container variant inner

/-- Takes the entry of a name out of a map. -/
def takeEntry (name : Text) : List (Key × Value) → Option (Value × List (Key × Value))
  | [] => none
  | (k, v) :: rest =>
    match k with
    | .text t =>
      if t = name then some (v, rest)
      else (takeEntry name rest).map fun r => (r.1, (k, v) :: r.2)
    | _ => (takeEntry name rest).map fun r => (r.1, (k, v) :: r.2)

/-- Writes the fields of a struct in order, and tells which entries are left. -/
def fieldsOf (s : Schema) (next : Visit) (container : Text) :
    List NamedField → List Text → List (Key × Value) →
    Output EncodeError (List (Key × Value))
  | field :: fields, name :: names, entries =>
    match takeEntry name entries with
    | none => Output.fail (.missingField container field.displayName)
    | some (v, rest) => do
      follow s next field.type v
      fieldsOf s next container fields names rest
  | _, _, entries => pure entries

/-- Writes a struct: every field has to have an entry, and every entry to be a field. -/
def struct (s : Schema) (next : Visit) (container : Text) (fields : List NamedField)
    (link : Link) (v : Value) : Output EncodeError Unit :=
  match v.mapping? with
  | none => Output.fail (.unexpected (Text.concat [container, " struct"]) v)
  | some m =>
    match s.table? link with
    | none => Output.fail (.noNames container)
    | some table =>
      if table.names.length < fields.length then
        Output.fail (.tooFewNames container table.names.length fields.length)
      else do
        let rest ← fieldsOf s next container fields table.names m.entries
        if rest.isEmpty then pure () else Output.fail (.unused (.map rest))

/-- Writes the items of a list, each against the link of its own position. -/
def positions (s : Schema) (next : Visit) : List UnnamedField → List Value →
    Output EncodeError Unit
  | field :: fields, v :: rest => do
    follow s next field.type v
    positions s next fields rest
  | _, _ => pure ()

/-- The number of items of a sequence or entries of a mapping. -/
def counted (count : Except Uncountable Nat) : Output EncodeError Nat :=
  Output.ofExcept (count.mapError .uncountable)

/-- Writes a sequence with an item for every field. -/
def tupleItems (s : Schema) (next : Visit) (fields : List UnnamedField) (v : Value) :
    Output EncodeError Unit :=
  match v.items? with
  | none => Output.fail (.unexpected "array" v)
  | some items => do
    let count ← counted items.count
    if count = fields.length then do
      let values ← Output.ofExcept (items.opened.mapError .unreadable)
      positions s next fields values
    else Output.fail (.wrongLength fields.length count)

/-- Writes a tuple. A tuple of one field is not wrapped in the value. -/
def tuple (s : Schema) (next : Visit) (fields : List UnnamedField) (v : Value) :
    Output EncodeError Unit :=
  match fields with
  | [field] => follow s next field.type v
  | fields => tupleItems s next fields v

/-- Writes an option: a byte that tells whether there is a value, then the value. -/
def option (s : Schema) (next : Visit) (item : Link) (v : Value) : Output EncodeError Unit :=
  if v.isNull then written (Write.byte 0)
  else do
    written (Write.byte 1)
    follow s next item v

/-- Writes an array: its items without their count. -/
def array (s : Schema) (next : Visit) (length : Nat) (item : Link) (v : Value) :
    Output EncodeError Unit :=
  match v.items? with
  | none => Output.fail (.unexpected "array" v)
  | some items => do
    let count ← counted items.count
    if count = length then do
      let type ← Output.ofExcept ((s.resolve item).mapError .unresolved)
      Write.forItems .unreadable items (next type item)
    else Output.fail (.wrongLength length count)

/-- Writes a vector: its items after their count. -/
def vec (s : Schema) (next : Visit) (item : Link) (v : Value) : Output EncodeError Unit :=
  match v.items? with
  | none => Output.fail (.unexpected "vector" v)
  | some items => do
    let count ← counted items.count
    Output.ofExcept (checkCount count)
    let type ← Output.ofExcept ((s.resolve item).mapError .unresolved)
    written (Write.count count)
    Write.forItems .unreadable items (next type item)

/-- The text of a map key; what is no text stands for its spelling in messages. -/
def keyText : Key → Text
  | .text t => t
  | k => k.toValue.compact

/-- Code point order of texts. -/
def textLE : Text → Text → Bool
  | [], _ => true
  | _ :: _, [] => false
  | a :: as, b :: bs => decide (a < b) || a = b && textLE as bs

theorem textLE_total (s t : Text) : (textLE s t || textLE t s) = true := by
  induction s generalizing t with
  | nil => rfl
  | cons a as ih =>
    cases t with
    | nil => rfl
    | cons b bs =>
      rcases Nat.lt_trichotomy a.val b.val with h | h | h
      · have h' : a < b := h
        simp only [textLE, h', decide_true, Bool.true_or]
      · obtain rfl : a = b := Fin.eq_of_val_eq h
        simp only [textLE, decide_true, Bool.true_and]
        have := ih bs
        cases decide (a < a) <;> simp_all only [Bool.false_or, Bool.true_or]
      · have h' : b < a := h
        simp only [textLE, h', decide_true, Bool.true_or, Bool.or_true]

theorem textLE_cons {a b : CodePoint} {s t : Text} :
    textLE (a :: s) (b :: t) = true ↔ a < b ∨ a = b ∧ textLE s t = true := by
  simp only [textLE, Bool.or_eq_true, Bool.and_eq_true, decide_eq_true_eq]

theorem textLE_trans {s t u : Text} (hst : textLE s t = true) (htu : textLE t u = true) :
    textLE s u = true := by
  induction s generalizing t u with
  | nil => rfl
  | cons a s ih =>
    cases t with
    | nil => nomatch hst
    | cons b t =>
      cases u with
      | nil => nomatch htu
      | cons c u =>
        rw [textLE_cons] at hst htu ⊢
        rcases hst with hab | ⟨rfl, hst⟩
        · rcases htu with hbc | ⟨rfl, _⟩
          · exact .inl (Fin.lt_trans hab hbc)
          · exact .inl hab
        · rcases htu with hbc | ⟨rfl, htu⟩
          · exact .inl hbc
          · exact .inr ⟨rfl, ih hst htu⟩

theorem textLE_antisymm {s t : Text} (hst : textLE s t = true) (hts : textLE t s = true) :
    s = t := by
  induction s generalizing t with
  | nil =>
    cases t with
    | nil => rfl
    | cons b t => nomatch hts
  | cons a s ih =>
    cases t with
    | nil => nomatch hst
    | cons b t =>
      rw [textLE_cons] at hst hts
      rcases hst with hab | ⟨rfl, hst⟩
      · rcases hts with hba | ⟨rfl, _⟩
        · exact absurd (Fin.lt_trans hab hba) (Fin.lt_irrefl a)
        · exact absurd hab (Fin.lt_irrefl _)
      · rcases hts with hba | ⟨_, hts⟩
        · exact absurd hba (Fin.lt_irrefl _)
        · rw [ih hst hts]

/-- Refuses entries with a key that cannot be spelled. -/
def checkKeys (entries : List (Key × Value)) : Except EncodeError Unit :=
  if entries.all fun e => e.1.numbers.all Text.spells then .ok () else .error .unspelledKey

theorem checkKeys_of_texts {entries : List (Key × Value)} (h : ∀ e ∈ entries, ∃ t, e.1 = .text t) :
    checkKeys entries = .ok () := by
  refine if_pos (List.all_eq_true.mpr fun e he => ?_)
  obtain ⟨t, ht⟩ := h e he
  rw [ht]
  rfl

/-- The entries of a map by ascending key text. -/
def sortedEntries (entries : List (Key × Value)) : List (Text × Value) :=
  (entries.map fun e => (keyText e.1, e.2)).mergeSort fun a b => textLE a.1 b.1

@[simp] theorem length_sortedEntries (entries : List (Key × Value)) :
    (sortedEntries entries).length = entries.length := by
  simp only [sortedEntries, List.length_mergeSort, List.length_map]

/-- The types whose map keys are numbers. -/
def isNumeric : Ty → Bool
  | .primitive (.integer _ _) => true
  | .primitive .float32 => true
  | .primitive .float64 => true
  | _ => false

/-- The value of a key against the key type of a map. -/
def keyValue (type : Ty) (key : Text) : Except EncodeError Value :=
  if isNumeric type then
    match numberOfText? key with
    | some n => .ok n
    | none => .error (.notNumberKey key)
  else .ok (.text key)

/-- Writes a map: its entries after their count, by ascending key text. -/
def map (s : Schema) (next : Visit) (key value : Link) (v : Value) : Output EncodeError Unit :=
  match v.mapping? with
  | none => Output.fail (.unexpected "map" v)
  | some m => do
    let count ← counted m.count
    Output.ofExcept (checkCount count)
    let keyType ← Output.ofExcept ((s.resolve key).mapError .unresolved)
    let valueType ← Output.ofExcept ((s.resolve value).mapError .unresolved)
    Output.ofExcept (checkKeys m.entries)
    let entries := sortedEntries m.entries
    written (Write.count entries.length)
    Output.forEach (fun e => do
      let k ← Output.ofExcept (keyValue keyType e.1)
      next keyType key k
      next valueType value e.2) entries

/-- The walk at one level, given the walk at the next. -/
def step (e : Encoder) (next : Visit) : Visit := fun type link v =>
  match type with
  | .primitive type => primitive e.config type v
  | .enumeration name variants _ => enumeration e.schema next name variants link v
  | .struct name fields _ _ => struct e.schema next name fields link v
  | .tuple fields _ _ => tuple e.schema next fields v
  | .option item => option e.schema next item v
  | .array length item => array e.schema next length item v
  | .vec item => vec e.schema next item v
  | .map key value => map e.schema next key value v

/-- The walk over at most the given number of levels. -/
def visit (e : Encoder) : Nat → Visit
  | 0 => fun _ _ _ => Output.fail (.tooDeep e.config.maxDepth)
  | levels + 1 => step e (visit e levels)

end Encode

namespace Encoder

/-- Encodes a value against a root type, walking at most the given number of levels. -/
def encodeWithin (e : Encoder) (levels : Nat) (index v : Value) :
    Except EncodeError (List UInt8) :=
  match e.schema.rootPosition? index with
  | none => .error (.invalidRoot index)
  | some position =>
    match e.schema.types[position]? with
    | none => .error (.invalidRoot index)
    | some type => (Encode.visit e levels type (.byIndex position) v).result

theorem encodeWithin_int (e : Encoder) (levels position : Nat) (v : Value) :
    e.encodeWithin levels (.int position) v =
      match e.schema.types[position]? with
      | none => .error (.invalidRoot (.int position))
      | some type => (Encode.visit e levels type (.byIndex position) v).result := by
  unfold encodeWithin
  rw [Schema.rootPosition?_int]
  by_cases h : position < e.schema.types.length
  · rw [if_pos h]
  · rw [if_neg h, List.getElem?_eq_none (Nat.not_lt.mp h)]

/-- Encodes a value against a root type. Links are followed up to the depth of the limits, the
root itself being at depth zero. -/
def encode (e : Encoder) (index v : Value) : Except EncodeError (List UInt8) :=
  e.encodeWithin (e.config.maxDepth + 1) index v

/-- Encodes a value like `encode`, but never walks more levels than there is room for. A deeper
walk is reported in the same way as one beyond the limits. -/
def run (e : Encoder) (stack : Stack) (index v : Value) : Except EncodeError (List UInt8) :=
  e.encodeWithin (min (e.config.maxDepth + 1) stack.levels) index v

end Encoder

end BorshWire
