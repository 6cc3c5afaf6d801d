import BorshWire.Proofs.Bytes.Utf8
import BorshWire.Proofs.Decoding.Decoder
import BorshWire.Proofs.Decoding.Reading
import BorshWire.Proofs.Simulation.Output
import Mathlib.Data.List.Nodup

/-!
# Every encoding is decoded

`decode_encode`: if every enum of a schema has pairwise distinct discriminants, then one decoder
reads from every encoding the datum that the value stands for, and leaves what follows. So no
encoding against a type stands at the front of another one, and values with the same bytes mean the
same.
-/

namespace BorshWire

/-! ## Distinct discriminants -/

/-- An enum has every discriminant once. -/
def Ty.DistinctDiscriminants : Ty → Prop
  | .enumeration _ variants _ => (variants.map Variant.discriminant).Nodup
  | _ => True

/-- Every enum of the table has every discriminant once. -/
def Schema.DistinctDiscriminants (s : Schema) : Prop :=
  ∀ type ∈ s.types, type.DistinctDiscriminants

theorem Schema.DistinctDiscriminants.resolve {s : Schema} (h : s.DistinctDiscriminants)
    {link : Link} {type : Ty} (hr : s.resolve link = .ok type) : type.DistinctDiscriminants := by
  cases link with
  | byIndex index => exact h type (List.mem_of_getElem? (resolve_byIndex_iff.mp hr))
  | immediate p =>
    obtain rfl := Except.ok.inj hr
    exact trivial
  | placeholder => cases hr
  | indexedPlaceholder index => cases hr

theorem findIdx?_discriminant {variants : List Variant} {position : Nat} {variant : Variant}
    (h : (variants.map Variant.discriminant).Nodup) (hv : variants[position]? = some variant) :
    variants.findIdx? (fun other => other.discriminant == variant.discriminant) =
      some position := by
  obtain ⟨hlt, rfl⟩ := List.getElem?_eq_some_iff.mp hv
  rw [List.findIdx?_eq_some_iff_getElem]
  refine ⟨hlt, beq_self_eq_true _, fun j hj heq => ?_⟩
  have hjlt := Nat.lt_trans hj hlt
  have hsame : (variants.map Variant.discriminant)[j]? =
      (variants.map Variant.discriminant)[position]? := by
    simp only [List.getElem?_map, List.getElem?_eq_getElem hjlt, List.getElem?_eq_getElem hlt,
      Option.map_some, eq_of_beq heq]
  have hplace := (List.getElem?_inj (by simpa using hjlt) h).mp hsame
  exact absurd hplace (Nat.ne_of_lt hj)

/-! ## Steps that are read back -/

/-- If the step ends well, there is a reading, and the reader takes it from the bytes put out. -/
def Recovers {α : Type} (x : Output EncodeError Unit) (a? : Option α) (r : Reader α) : Prop :=
  ∀ bytes : List UInt8, x.Yields bytes () → ∃ a, a? = some a ∧ r.Reads bytes a

namespace Recovers

variable {α β γ δ : Type}

theorem fail {e : EncodeError} {a? : Option α} {r : Reader α} : Recovers (Output.fail e) a? r :=
  fun _ h => absurd h Output.not_yields_fail

theorem ofExcept_bind {c? : Except EncodeError γ} {f : γ → Output EncodeError Unit}
    {a? : Option α} {r : Reader α} (h : ∀ c, c? = .ok c → Recovers (f c) a? r) :
    Recovers (Output.ofExcept c? >>= f) a? r := by
  intro bytes hy
  obtain ⟨c, hc, hf⟩ := Output.yields_ofExcept_bind_iff.mp hy
  exact h c hc bytes hf

theorem map {x : Output EncodeError Unit} {a? : Option α} {r : Reader α} (h : Recovers x a? r)
    (f : α → β) : Recovers x (f <$> a?) (f <$> r) := by
  intro bytes hy
  obtain ⟨a, rfl, hr⟩ := h _ hy
  exact ⟨f a, rfl, hr.map f⟩

theorem pure (a : α) : Recovers (Pure.pure ()) (some a) (Pure.pure a) := by
  intro bytes hy
  obtain ⟨rfl, _⟩ := Output.yields_pure_iff.mp hy
  exact ⟨a, rfl, .pure a⟩

theorem both {x : Output EncodeError Unit} {y : Unit → Output EncodeError Unit} {a? : Option α}
    {b? : Option β} {r : Reader α} {q : Reader β} (f : α → β → γ) (hx : Recovers x a? r)
    (hy : Recovers (y ()) b? q) :
    Recovers (x >>= y) (do let a ← a?; let b ← b?; some (f a b))
      (do let a ← r; let b ← q; return f a b) := by
  intro bytes h
  obtain ⟨front, _, back, hfront, hback, rfl⟩ := Output.yields_bind_iff.mp h
  obtain ⟨a, rfl, ha⟩ := hx _ hfront
  obtain ⟨b, rfl, hb⟩ := hy _ hback
  exact ⟨f a b, rfl, ha.bind (hb.map (f a))⟩

theorem count {n : Nat} {y : Unit → Output EncodeError Unit} {a? : Option α} {r : Nat → Reader α}
    (h : Recovers (y ()) a? (r n)) :
    Recovers (Encode.written (Write.count n) >>= y) a? (Reader.count >>= r) := by
  intro bytes hy
  obtain ⟨front, _, back, hcount, hback, rfl⟩ := Output.yields_bind_iff.mp hy
  obtain ⟨hlt, rfl⟩ := Write.count_yields_iff.mp (Encode.written_yields_iff.mp hcount)
  obtain ⟨a, ha, hr⟩ := h _ hback
  exact ⟨a, ha, (Reader.Reads.count hlt).bind hr⟩

theorem byte {b : UInt8} {y : Unit → Output EncodeError Unit} {a? : Option α} {c : γ}
    {q : Reader γ} {r : γ → Reader α} (hq : q.Reads [b] c) (h : Recovers (y ()) a? (r c)) :
    Recovers (Encode.written (Write.byte b) >>= y) a? (q >>= r) := by
  intro bytes hy
  obtain ⟨front, _, back, hbyte, hback, rfl⟩ := Output.yields_bind_iff.mp hy
  obtain rfl := Encode.written_emit_yields_iff.mp hbyte
  obtain ⟨a, ha, hr⟩ := h _ hback
  exact ⟨a, ha, hq.bind hr⟩

theorem forEach {f : γ → Output EncodeError Unit} {g : γ → Option α} {r : Reader α}
    (h : ∀ c, Recovers (f c) (g c) r) (items : List γ) :
    Recovers (Output.forEach f items) (items.mapM g) (Reader.times r items.length) := by
  induction items with
  | nil => exact pure []
  | cons c rest ih =>
    rw [List.mapM_cons]
    exact (h c).both List.cons ih

end Recovers

theorem Reader.Reads.flag (b : Bool) : Reader.flag.Reads [if b then 1 else 0] b := by
  cases b <;> exact fun _ => rfl

namespace Encode

/-! ## Primitives -/

theorem bytes_recovers (data : List UInt8) :
    Recovers (written (Write.bytes data)) (some (Datum.bytes data))
      (Datum.bytes <$> Reader.take data.length) := by
  intro bytes h
  obtain rfl := written_emit_yields_iff.mp h
  exact ⟨_, rfl, (Reader.Reads.take data).map Datum.bytes⟩

theorem string_recovers (t : Text) :
    Recovers (written (Write.string t)) (some (Datum.text t))
      (Schema.decodePrimitive .string) := by
  intro bytes h
  obtain ⟨data, hutf8, hlt, rfl⟩ := Write.string_yields_iff.mp (written_yields_iff.mp h)
  have htext : (Text.ofUtf8 data).toOption = some t := by
    rw [Text.ofUtf8_of_utf8? hutf8]
    rfl
  refine ⟨.text t, rfl, (Reader.Reads.count hlt).bind ?_⟩
  have hread : (Reader.take data.length >>= fun data =>
      Datum.text <$> Reader.ofOption (Text.ofUtf8 data).toOption).Reads (data ++ []) (.text t) :=
    (Reader.Reads.take data).bind ((Reader.Reads.ofOption htext).map Datum.text)
  rwa [List.append_nil] at hread

theorem integer_recovers (config : Config) (kind : IntKind) (display : IntegerDisplay) (v : Value) :
    Recovers (primitive config (.integer kind display) v)
      (readPrimitive config (.integer kind display) v)
      (Schema.decodePrimitive (.integer kind display)) := by
  refine .ofExcept_bind fun n hn => ?_
  intro bytes h
  obtain ⟨m, hm, hc, rfl⟩ := Write.integer_yields_iff.mp (written_yields_iff.mp h)
  refine ⟨.integer m, ?_, ?_⟩
  · rw [readPrimitive, readInteger_of_value hn hm]
    rfl
  · have hlength : (kind.range.bytes m).length = kind.width.bytes := by
      rw [IntRange.length_bytes, IntKind.width_range]
    have hread := (Reader.Reads.take_of_length hlength).map
      fun data => Datum.integer (kind.ofBytes data)
    rwa [IntKind.ofBytes_bytes hc] at hread

theorem byteArray_recovers (config : Config) (length : Nat) (display : ByteDisplay) (v : Value) :
    Recovers (primitive config (.byteArray length display) v)
      (readPrimitive config (.byteArray length display) v)
      (Schema.decodePrimitive (.byteArray length display)) := by
  refine .ofExcept_bind fun data hdata => ?_
  have hreading : readPrimitive config (.byteArray length display) v = some (.bytes data) := by
    rw [readPrimitive, readBytes_of_byteString hdata]
    rfl
  rw [hreading]
  split
  · rename_i hlength
    rw [← hlength]
    exact bytes_recovers data
  · exact .fail

theorem byteVec_recovers (config : Config) (display : ByteDisplay) (v : Value) :
    Recovers (primitive config (.byteVec display) v) (readPrimitive config (.byteVec display) v)
      (Schema.decodePrimitive (.byteVec display)) := by
  refine .ofExcept_bind fun data hdata => .ofExcept_bind fun _ _ => ?_
  have hreading : readPrimitive config (.byteVec display) v = some (.bytes data) := by
    rw [readPrimitive, readBytes_of_byteString hdata]
    rfl
  rw [hreading]
  exact .count (bytes_recovers data)

theorem single_recovers (config : Config) (v : Value) :
    Recovers (primitive config .float32 v) (readPrimitive config .float32 v)
      (Schema.decodePrimitive .float32) := by
  refine .ofExcept_bind fun x hx => ?_
  intro bytes h
  obtain ⟨_, rfl⟩ := Write.single_yields_iff.mp (written_yields_iff.mp h)
  refine ⟨.single x.toSingle, ?_, ?_⟩
  · rw [readPrimitive, readDouble_of_value hx]
    rfl
  · have hread := (Reader.Reads.take_of_length (length_littleEndian 4 x.toSingle.toNat)).map
      fun data => Datum.single (BitVec.ofNat 32 (ofLittleEndian data))
    rwa [ofNat_ofLittleEndian 4 rfl] at hread

theorem double_recovers (config : Config) (v : Value) :
    Recovers (primitive config .float64 v) (readPrimitive config .float64 v)
      (Schema.decodePrimitive .float64) := by
  refine .ofExcept_bind fun x hx => ?_
  intro bytes h
  obtain ⟨_, rfl⟩ := Write.double_yields_iff.mp (written_yields_iff.mp h)
  refine ⟨.double x.bits, ?_, ?_⟩
  · rw [readPrimitive, readDouble_of_value hx]
    rfl
  · have hread := (Reader.Reads.take_of_length (length_littleEndian 8 x.bits.toNat)).map
      fun data => Datum.double (BitVec.ofNat 64 (ofLittleEndian data))
    rwa [ofNat_ofLittleEndian 8 rfl] at hread

theorem boolean_recovers (config : Config) (v : Value) :
    Recovers (primitive config .boolean v) (readPrimitive config .boolean v)
      (Schema.decodePrimitive .boolean) := by
  refine .ofExcept_bind fun b hb => ?_
  intro bytes h
  obtain rfl := written_emit_yields_iff.mp h
  refine ⟨.bool b, ?_, (Reader.Reads.flag b).map Datum.bool⟩
  rw [readPrimitive, readBool_of_value hb]
  rfl

theorem primitive_recovers (config : Config) (type : Primitive) (v : Value) :
    Recovers (primitive config type v) (readPrimitive config type v)
      (Schema.decodePrimitive type) := by
  cases type with
  | integer kind display => exact integer_recovers config kind display v
  | byteArray length display => exact byteArray_recovers config length display v
  | byteVec display => exact byteVec_recovers config display v
  | float32 => exact single_recovers config v
  | float64 => exact double_recovers config v
  | string =>
    cases v with
    | text t => exact string_recovers t
    | _ => exact .fail
  | boolean => exact boolean_recovers config v
  | skip length => exact .pure Datum.unit

/-! ## Containers -/

/-- Every value at every type with distinct discriminants is read back. -/
def RecoversAll (next : Visit) (read : Read) (dec : Ty → Reader Datum) : Prop :=
  ∀ (type : Ty) (link : Link) (v : Value), type.DistinctDiscriminants →
    Recovers (next type link v) (read type link v) (dec type)

theorem variantOf?_eq_some {table : NameTable} {variants : List Variant} {name : Key}
    {variant : Variant} (h : variantOf? table variants name = some variant) :
    ∃ position, variantPlace? table name = some position ∧ variants[position]? = some variant := by
  cases name with
  | text t => exact Option.bind_eq_some_iff.mp h
  | _ => cases h

theorem length_of_counted {items : Items} {values : List Value} {n : Nat}
    (hcount : items.count.mapError EncodeError.uncountable = .ok n)
    (hopened : items.opened = .ok values) : values.length = n := by
  rw [Items.eq_length_of_count (Output.mapError_eq_ok_iff.mp hcount),
    Items.length_of_opened hopened]

section

variable {s : Schema} {next : Visit} {read : Read} {dec : Ty → Reader Datum}
  (hs : s.DistinctDiscriminants) (hnext : RecoversAll next read dec)

include hs hnext

theorem follow_recovers (link : Link) (v : Value) :
    Recovers (follow s next link v) (readLink s read link v) (s.decodeLink dec link) := by
  intro bytes h
  obtain ⟨type, hr, hy⟩ := follow_yields_iff.mp h
  obtain ⟨d, hd, hreads⟩ := hnext type link v (hs.resolve hr) _ hy
  have htype : (s.resolve link).toOption = some type := by
    rw [hr]
    rfl
  refine ⟨d, ?_, (Reader.Reads.ofOption htype).bind hreads⟩
  unfold readLink
  rw [htype]
  exact hd

theorem payload_recovers (container : Text) (position : Nat) (variant : Variant)
    (inner : Value) :
    Recovers (payload s next container variant inner)
      (match variant.payload with
        | none => some (.bare position)
        | some link => Datum.variant position <$> readLink s read link inner)
      (match variant.payload with
        | none => return .bare position
        | some link => Datum.variant position <$> s.decodeLink dec link) := by
  unfold payload
  cases variant.payload with
  | none =>
    dsimp only
    split
    · exact .pure _
    · exact .fail
  | some link =>
    dsimp only
    split
    · exact .fail
    · exact (follow_recovers hs hnext link inner).map (Datum.variant position)

theorem enumeration_recovers {container : Text} {variants : List Variant} (link : Link)
    (v : Value) (distinct : (variants.map Variant.discriminant).Nodup) :
    Recovers (enumeration s next container variants link v)
      (readEnumeration s read container variants link v) (s.decodeEnumeration dec variants) := by
  refine .ofExcept_bind fun ⟨name, inner⟩ hselection => ?_
  dsimp only
  split
  · exact .fail
  · rename_i table htable
    split
    · exact .fail
    · rename_i variant hvariant
      obtain ⟨position, hname, hposition⟩ := variantOf?_eq_some hvariant
      have hreading : readEnumeration s read container variants link v =
          match variant.payload with
          | none => some (.bare position)
          | some link => Datum.variant position <$> readLink s read link inner := by
        unfold readEnumeration
        rw [hselection, htable]
        show (variantPlace? table name >>= _) = _
        rw [hname]
        show (variants[position]? >>= _) = _
        rw [hposition]
        rfl
      rw [hreading]
      refine .byte (.byte _) ?_
      intro bytes hy
      obtain ⟨d, hd, hreads⟩ := payload_recovers hs hnext container position variant inner _ hy
      have hindex := Reader.Reads.ofOption (findIdx?_discriminant distinct hposition)
      exact ⟨d, hd, hindex.bind ((Reader.Reads.ofOption hposition).bind hreads)⟩

/-- Fields are read back in schema order, whatever is left of the mapping. -/
theorem fieldsOf_recovers {container : Text} {fields : List NamedField} {names : List Text}
    {entries rest : List (Key × Value)} {bytes : List UInt8}
    (hlength : fields.length ≤ names.length)
    (h : (fieldsOf s next container fields names entries).Yields bytes rest) :
    ∃ ds, readFields s read fields names entries = some ds ∧
      (fields.mapM fun field => s.decodeLink dec field.type).Reads bytes ds := by
  induction fields generalizing names entries bytes with
  | nil =>
    obtain ⟨rfl, _⟩ := Output.yields_pure_iff.mp h
    exact ⟨[], rfl, .pure []⟩
  | cons field fields ih =>
    cases names with
    | nil => cases hlength
    | cons name names =>
      rw [fieldsOf] at h
      cases htaken : takeEntry name entries with
      | none =>
        rw [htaken] at h
        exact absurd h Output.not_yields_fail
      | some taken =>
        obtain ⟨v, others⟩ := taken
        rw [htaken] at h
        obtain ⟨front, _, back, hfront, hback, rfl⟩ := Output.yields_bind_iff.mp h
        obtain ⟨d, hd, hreads⟩ := follow_recovers hs hnext field.type v _ hfront
        obtain ⟨ds, hds, hrest⟩ := ih (Nat.le_of_succ_le_succ hlength) hback
        refine ⟨d :: ds, ?_, .mapM_cons hreads hrest⟩
        rw [readFields, htaken]
        show (readLink s read field.type v >>= _) = _
        rw [hd]
        show (readFields s read fields names others >>= _) = _
        rw [hds]
        rfl

theorem struct_recovers (container : Text) (fields : List NamedField) (link : Link) (v : Value) :
    Recovers (struct s next container fields link v) (readStruct s read fields link v)
      (Datum.struct <$> fields.mapM fun field => s.decodeLink dec field.type) := by
  unfold struct readStruct
  cases v.mapping? with
  | none => exact .fail
  | some m =>
    cases s.table? link with
    | none => exact .fail
    | some table =>
      dsimp only
      split
      · exact .fail
      · rename_i hlength
        intro bytes h
        obtain ⟨front, rest, back, hfront, hback, rfl⟩ := Output.yields_bind_iff.mp h
        obtain ⟨ds, hds, hreads⟩ := fieldsOf_recovers hs hnext (Nat.not_lt.mp hlength) hfront
        have hnothing : back = [] := by
          split at hback
          · exact (Output.yields_pure_iff.mp hback).1
          · exact absurd hback Output.not_yields_fail
        rw [hnothing, List.append_nil]
        refine ⟨.struct ds, ?_, hreads.map Datum.struct⟩
        show Datum.struct <$> readFields s read fields table.names m.entries = _
        rw [hds]
        rfl

theorem positions_recovers {fields : List UnnamedField} {vs : List Value}
    (hlength : vs.length = fields.length) :
    Recovers (positions s next fields vs) (readPositions s read fields vs)
      (fields.mapM fun field => s.decodeLink dec field.type) := by
  induction fields generalizing vs with
  | nil => exact .pure []
  | cons field fields ih =>
    cases vs with
    | nil => cases hlength
    | cons v vs =>
      rw [List.mapM_cons]
      exact (follow_recovers hs hnext field.type v).both List.cons (ih (Nat.succ.inj hlength))

theorem tupleItems_recovers (fields : List UnnamedField) (v : Value) :
    Recovers (tupleItems s next fields v)
      (do
        let items ← v.items?
        let values ← items.opened.toOption
        Datum.list <$> readPositions s read fields values)
      (Datum.list <$> fields.mapM fun field => s.decodeLink dec field.type) := by
  unfold tupleItems
  cases v.items? with
  | none => exact .fail
  | some items =>
    show Recovers _ (items.opened.toOption >>= fun values =>
      Datum.list <$> readPositions s read fields values) _
    refine .ofExcept_bind fun count hcount => ?_
    split
    · rename_i heq
      refine .ofExcept_bind fun values hvalues => ?_
      have hopened := Output.mapError_eq_ok_iff.mp hvalues
      have hlength := (length_of_counted hcount hopened).trans heq
      rw [hopened]
      exact (positions_recovers hs hnext hlength).map Datum.list
    · exact .fail

theorem tuple_recovers (fields : List UnnamedField) (v : Value) :
    Recovers (tuple s next fields v) (readTuple s read fields v) (s.decodeTuple dec fields) := by
  match fields with
  | [] => exact tupleItems_recovers hs hnext [] v
  | [field] => exact follow_recovers hs hnext field.type v
  | first :: second :: rest => exact tupleItems_recovers hs hnext (first :: second :: rest) v

theorem option_recovers (item : Link) (v : Value) :
    Recovers (option s next item v) (readOption s read item v)
      (s.decodeStep dec (.option item)) := by
  unfold option readOption
  split
  · rw [← bind_pure (written (Write.byte 0))]
    exact .byte (.flag false) (.pure Datum.absent)
  · exact .byte (.flag true) ((follow_recovers hs hnext item v).map Datum.present)

theorem items_recovers {item : Link} {type : Ty} (hr : s.resolve item = .ok type) {items : Items}
    {count : Nat} (hcount : items.count.mapError EncodeError.uncountable = .ok count) :
    Recovers (Write.forItems .unreadable items (next type item))
      (do
        let values ← items.opened.toOption
        Datum.list <$> values.mapM (readLink s read item))
      (Datum.list <$> Reader.times (s.decodeLink dec item) count) := by
  rw [Write.forItems_eq_forEach]
  refine .ofExcept_bind fun values hvalues => ?_
  have hopened := Output.mapError_eq_ok_iff.mp hvalues
  rw [hopened, ← length_of_counted hcount hopened]
  refine .map (.forEach (fun v => ?_) values) Datum.list
  rw [← follow_of_resolve hr next v]
  exact follow_recovers hs hnext item v

theorem array_recovers (length : Nat) (item : Link) (v : Value) :
    Recovers (array s next length item v) (readItems s read item v)
      (s.decodeStep dec (.array length item)) := by
  unfold array readItems
  cases v.items? with
  | none => exact .fail
  | some items =>
    refine .ofExcept_bind fun count hcount => ?_
    split
    · rename_i heq
      refine .ofExcept_bind fun type hr => ?_
      have hitems := items_recovers hs hnext (Output.mapError_eq_ok_iff.mp hr) hcount
      rwa [heq] at hitems
    · exact .fail

theorem vec_recovers (item : Link) (v : Value) :
    Recovers (vec s next item v) (readItems s read item v) (s.decodeStep dec (.vec item)) := by
  unfold vec readItems
  cases v.items? with
  | none => exact .fail
  | some items =>
    refine .ofExcept_bind fun count hcount => .ofExcept_bind fun _ _ => ?_
    refine .ofExcept_bind fun type hr => .count ?_
    exact items_recovers hs hnext (Output.mapError_eq_ok_iff.mp hr) hcount

theorem map_recovers (key value : Link) (v : Value) :
    Recovers (map s next key value v) (readMap s read key value v)
      (s.decodeStep dec (.map key value)) := by
  unfold map readMap
  cases v.mapping? with
  | none => exact .fail
  | some m =>
    refine .ofExcept_bind fun _ _ => .ofExcept_bind fun _ _ => ?_
    refine .ofExcept_bind fun keyType hkey => .ofExcept_bind fun valueType hvalue => ?_
    refine .ofExcept_bind fun _ _ => .count ?_
    have hkey := Output.mapError_eq_ok_iff.mp hkey
    have hvalue := Output.mapError_eq_ok_iff.mp hvalue
    rw [sortedEntries_eq_byKeyText]
    refine .map (.forEach (fun entry => ?_) (byKeyText m.entries)) Datum.map
    refine .ofExcept_bind fun k hk => ?_
    have hreading : readEntry s read key value entry = readPair s read key value k entry.2 := by
      unfold readEntry
      rw [hkey]
      show ((keyValue keyType entry.1).toOption >>= _) = _
      rw [hk]
      rfl
    rw [hreading, ← follow_of_resolve hkey next k, ← follow_of_resolve hvalue next entry.2]
    exact (follow_recovers hs hnext key k).both Prod.mk (follow_recovers hs hnext value entry.2)

end

/-! ## The walk -/

/-- If the next level is read back, so is this one. -/
theorem step_recovers {e : Encoder} (hs : e.schema.DistinctDiscriminants) {next : Visit}
    {read : Read} {dec : Ty → Reader Datum} (hnext : RecoversAll next read dec) :
    RecoversAll (step e next) (readStep e read) (e.schema.decodeStep dec) := by
  intro type link v htype
  cases type with
  | primitive type => exact primitive_recovers e.config type v
  | enumeration name variants _ => exact enumeration_recovers hs hnext link v htype
  | struct name fields _ _ => exact struct_recovers hs hnext name fields link v
  | tuple fields _ _ => exact tuple_recovers hs hnext fields v
  | option item => exact option_recovers hs hnext item v
  | array length item => exact array_recovers hs hnext length item v
  | vec item => exact vec_recovers hs hnext item v
  | map key value => exact map_recovers hs hnext key value v

theorem visit_recovers {e : Encoder} (hs : e.schema.DistinctDiscriminants) (levels : Nat) :
    RecoversAll (visit e levels) (read e levels) (e.schema.decodeWithin levels) := by
  induction levels with
  | zero => exact fun _ _ _ _ => .fail
  | succ levels ih => exact step_recovers hs ih

end Encode

namespace Encoder

/-! ## Whole encodings -/

/-- What is encoded against an entry of the type table is read back, whatever follows it. -/
theorem reads_of_encode {e : Encoder} (hs : e.schema.DistinctDiscriminants) {index : Nat}
    {v : Value} {bytes : List UInt8} (h : e.encode (.int index) v = .ok bytes) :
    ∃ d, e.reading index v = some d ∧ (e.schema.decode e.config.maxDepth index).Reads bytes d := by
  unfold encode at h
  rw [encodeWithin_int] at h
  cases htype : e.schema.types[index]? with
  | none =>
    rw [htype] at h
    cases h
  | some type =>
    rw [htype] at h
    have hdistinct := hs type (List.mem_of_getElem? htype)
    obtain ⟨d, hd, hreads⟩ := Encode.visit_recovers hs _ type (.byIndex index) v hdistinct bytes
      (Output.result_eq_ok_iff_yields.mp h)
    refine ⟨d, ?_, (Reader.Reads.ofOption htype).bind hreads⟩
    unfold reading
    rw [htype]
    exact hd

/-- If every enum has pairwise distinct discriminants, then the decoder of the schema and the depth
reads from the bytes of every encoding what the value means, and leaves whatever follows. So no
encoding against a type is a proper front of another one, and values with the same bytes mean the
same. -/
theorem decode_encode {s : Schema} (hs : s.DistinctDiscriminants) (maxDepth index : Nat) :
    (∀ {config : Config} {v : Value} {bytes : List UInt8}, config.maxDepth = maxDepth →
      encode ⟨s, config⟩ (.int index) v = .ok bytes →
      ∃ d, reading ⟨s, config⟩ index v = some d ∧
        ∀ suffix, (s.decode maxDepth index).run (bytes ++ suffix) = some (d, suffix)) ∧
    (∀ {config config' : Config} {v v' : Value} {bytes bytes' : List UInt8},
      config.maxDepth = maxDepth → config'.maxDepth = maxDepth →
      encode ⟨s, config⟩ (.int index) v = .ok bytes →
      encode ⟨s, config'⟩ (.int index) v' = .ok bytes' → bytes <+: bytes' → bytes = bytes') ∧
    ∀ {config config' : Config} {v v' : Value} {bytes : List UInt8},
      config.maxDepth = maxDepth → config'.maxDepth = maxDepth →
      encode ⟨s, config⟩ (.int index) v = .ok bytes →
      encode ⟨s, config'⟩ (.int index) v' = .ok bytes →
      reading ⟨s, config⟩ index v = reading ⟨s, config'⟩ index v' := by
  have hreads : ∀ {config : Config} {v : Value} {bytes : List UInt8},
      config.maxDepth = maxDepth → encode ⟨s, config⟩ (.int index) v = .ok bytes →
      ∃ d, reading ⟨s, config⟩ index v = some d ∧ (s.decode maxDepth index).Reads bytes d := by
    intro config v bytes hdepth h
    rw [← hdepth]
    exact reads_of_encode (e := ⟨s, config⟩) hs h
  refine ⟨hreads, ?_, ?_⟩
  · intro config config' v v' bytes bytes' hdepth hdepth' h h' hfront
    obtain ⟨d, _, hd⟩ := hreads hdepth h
    obtain ⟨d', _, hd'⟩ := hreads hdepth' h'
    exact hd.eq_of_isPrefix hd' hfront
  · intro config config' v v' bytes hdepth hdepth' h h'
    obtain ⟨d, hd, hbytes⟩ := hreads hdepth h
    obtain ⟨d', hd', hbytes'⟩ := hreads hdepth' h'
    rw [hd, hd', hbytes.unique hbytes']

end Encoder

/-- Dots, and lines of bytes or of lines. -/
def Schema.lines : Schema :=
  build
    [.enumeration "Shape" [⟨"Dot", 7, none, none⟩, ⟨"Line", 2, none, some (.byIndex 1)⟩,
        ⟨"Bundle", 0, none, some (.byIndex 2)⟩] false,
      .primitive (.byteVec (.hex none)), .vec (.byIndex 0)]
    [0] [⟨"Shape", ["dot", "line", "bundle"]⟩, ⟨"", []⟩, ⟨"", []⟩] none [] []

theorem Schema.lines_distinct : lines.DistinctDiscriminants := by
  intro type h
  rcases List.mem_cons.mp h with rfl | h
  · show (([7, 2, 0] : List UInt8)).Nodup
    decide
  · rcases List.mem_pair.mp h with rfl | rfl <;> exact trivial

/-- A bundle of a dot and a line. -/
def Value.bundle : Value :=
  .map [(.text "bundle", .list [.text "dot", .map [(.text "line", .list [.int 5])]])]

theorem Encoder.decode_bundle :
    Schema.lines.DistinctDiscriminants ∧
      ∃ d, reading ⟨.lines, .default⟩ 0 .bundle = some d ∧
        (Schema.lines.decode 256 0).run [0, 2, 0, 0, 0, 7, 2, 1, 0, 0, 0, 5, 9] =
          some (d, [9]) := by
  refine ⟨Schema.lines_distinct, ?_⟩
  have hdepth : Config.default.maxDepth = 256 := rfl
  have hencode : encode ⟨.lines, .default⟩ (.int 0) .bundle =
      .ok [0, 2, 0, 0, 0, 7, 2, 1, 0, 0, 0, 5] := rfl
  obtain ⟨d, hd, hdecode⟩ := (decode_encode Schema.lines_distinct 256 0).1 hdepth hencode
  exact ⟨d, hd, hdecode [9]⟩

end BorshWire
