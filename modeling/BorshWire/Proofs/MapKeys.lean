import BorshWire.Proofs.Decoding.RoundTrip
import BorshWire.Proofs.Entries
import BorshWire.Proofs.Positions
import BorshWire.Proofs.Reference.Primitives
import BorshWire.Proofs.Schema.Names
import BorshWire.Proofs.Simulation.Walk

/-!
# Keys of maps on the wire

The keys of a mapping are distinct as they stand, but a key goes through its text to a value of the
key type, and several texts can stand for one value. `Encoder.mapKeys_nodup_iff`: a map is written as
its count and its entries, two of its keys have the same bytes exactly if their texts are read as the
same key, and at types that tell all texts apart the keys are distinct if their texts are.
-/

namespace BorshWire

/-- The bytes of a loop are those of its steps, one after the other. -/
theorem Output.yields_forEach_iff {ε α : Type} {f : α → Output ε Unit} {items : List α}
    {bytes : List UInt8} :
    (forEach f items).Yields bytes () ↔
      ∃ parts, List.Forall₂ (fun a part => (f a).Yields part ()) items parts ∧
        bytes = parts.flatten := by
  induction items generalizing bytes with
  | nil =>
    rw [yields_forEach_nil_iff]
    constructor
    · rintro rfl
      exact ⟨[], .nil, rfl⟩
    · rintro ⟨parts, h, rfl⟩
      cases h
      rfl
  | cons a rest ih =>
    rw [yields_forEach_cons_iff]
    constructor
    · rintro ⟨front, back, hfront, hback, rfl⟩
      obtain ⟨parts, hparts, rfl⟩ := ih.mp hback
      exact ⟨front :: parts, .cons hfront hparts, rfl⟩
    · rintro ⟨parts, h, rfl⟩
      cases h with
      | cons hfront hrest => exact ⟨_, _, hfront, ih.mpr ⟨_, hrest, rfl⟩, rfl⟩

theorem nodup_map_iff_of_eq_iff {α β γ : Type} {f : α → β} {g : α → γ} {items : List α}
    (h : ∀ a ∈ items, ∀ b ∈ items, f a = f b ↔ g a = g b) :
    (items.map f).Nodup ↔ (items.map g).Nodup := by
  unfold List.Nodup
  rw [List.pairwise_map, List.pairwise_map]
  exact List.Pairwise.iff_of_mem fun ha hb => not_congr (h _ ha _ hb)

/-- What a key of a map is read as. A variant counts by its discriminant, whatever its name. -/
inductive MapKey where
  | scalar (d : Datum)
  | variant (discriminant : UInt8)
  | present (key : MapKey)

namespace Encode

/-! ## Reading a key -/

/-- The value of a key is read so at a type that was reached through a link. Values of keys have no
parts, so that there is no reading at types that need some. -/
inductive ReadsKey (e : Encoder) : Ty → Link → Value → MapKey → Prop where
  | scalar {type : Primitive} {link : Link} {v : Value} {d : Datum}
    (h : readPrimitive e.config type v = some d) : ReadsKey e (.primitive type) link v (.scalar d)
  | variant {name t : Text} {variants : List Variant} {hideTag : Bool} {link : Link}
    {table : NameTable} {variant : Variant} (htable : e.schema.table? link = some table)
    (hvariant : variantOf? table variants (.text t) = some variant) :
    ReadsKey e (.enumeration name variants hideTag) link (.text t) (.variant variant.discriminant)
  | single {field : UnnamedField} {template : Option Text} {peekable : Bool} {link : Link}
    {type : Ty} {v : Value} {key : MapKey} (hr : e.schema.resolve field.type = .ok type)
    (h : ReadsKey e type field.type v key) :
    ReadsKey e (.tuple [field] template peekable) link v key
  | present {item link : Link} {type : Ty} {v : Value} {key : MapKey} (hv : v.isNull = false)
    (hr : e.schema.resolve item = .ok type) (h : ReadsKey e type item v key) :
    ReadsKey e (.option item) link v (.present key)

/-- A value without parts that is not nothing. -/
structure Partless (v : Value) : Prop where
  items : v.items? = none
  mapping : v.mapping? = none
  isNull : v.isNull = false

theorem Partless.of_keyValue {type : Ty} {key : Text} {v : Value} (h : keyValue type key = .ok v) :
    Partless v := by
  rcases eq_of_keyValue h with rfl | ⟨n, rfl⟩ | ⟨x, rfl⟩ <;> exact ⟨rfl, rfl, rfl⟩

/-- A key selects a variant by its text alone, and then there is no payload. -/
theorem enumeration_yields_of_partless {s : Schema} {next : Visit} {name : Text}
    {variants : List Variant} {link : Link} {v : Value} {own : List UInt8} (hv : Partless v)
    (h : (enumeration s next name variants link v).Yields own ()) :
    ∃ t table variant, v = .text t ∧ s.table? link = some table ∧
      variantOf? table variants (.text t) = some variant ∧ own = [variant.discriminant] := by
  obtain ⟨⟨key, inner⟩, hselection, hy⟩ := Output.yields_ofExcept_bind_iff.mp h
  have htext : ∃ t, v = .text t := by
    cases v with
    | text t => exact ⟨t, rfl⟩
    | map => cases hv.mapping
    | vastMap => cases hv.mapping
    | _ => cases hselection
  obtain ⟨t, rfl⟩ := htext
  obtain ⟨rfl, rfl⟩ := Prod.mk.inj (Except.ok.inj hselection)
  dsimp only at hy
  split at hy
  · exact absurd hy Output.not_yields_fail
  · rename_i table htable
    split at hy
    · exact absurd hy Output.not_yields_fail
    · rename_i variant hvariant
      obtain ⟨front, _, back, hfront, hback, rfl⟩ := Output.yields_bind_iff.mp hy
      obtain rfl := written_emit_yields_iff.mp hfront
      have hnothing : back = [] := by
        unfold payload at hback
        split at hback
        · exact absurd hback Output.not_yields_fail
        · exact (Output.yields_pure_iff.mp hback).1
      exact ⟨t, table, variant, rfl, htable, hvariant, by rw [hnothing, List.append_nil]⟩

theorem option_yields_of_present {s : Schema} {next : Visit} {item : Link} {v : Value}
    {own : List UInt8} (hv : v.isNull = false) (h : (option s next item v).Yields own ()) :
    ∃ rest, own = 1 :: rest ∧ (follow s next item v).Yields rest () := by
  rw [option, hv] at h
  obtain ⟨front, _, back, hfront, hback, rfl⟩ := Output.yields_bind_iff.mp h
  obtain rfl := written_emit_yields_iff.mp hfront
  exact ⟨back, rfl, hback⟩

/-- A key that is written has a reading. Only options and tuples of one field hand it down to the next
level, and they hand it down as it is. -/
theorem exists_readsKey {e : Encoder} {levels : Nat} {type : Ty} {link : Link} {v : Value}
    {own : List UInt8} (hv : Partless v) (h : (visit e levels type link v).Yields own ()) :
    ∃ key, ReadsKey e type link v key := by
  induction levels generalizing type link own with
  | zero => exact absurd h Output.not_yields_fail
  | succ levels ih =>
    cases type with
    | primitive type =>
      obtain ⟨d, hd, _⟩ := primitive_recovers e.config type v own h
      exact ⟨.scalar d, .scalar hd⟩
    | enumeration name variants hideTag =>
      obtain ⟨t, table, variant, rfl, htable, hvariant, _⟩ := enumeration_yields_of_partless hv h
      exact ⟨_, .variant htable hvariant⟩
    | struct name fields template peekable =>
      change (struct e.schema (visit e levels) name fields link v).Yields own () at h
      unfold struct at h
      rw [hv.mapping] at h
      exact absurd h Output.not_yields_fail
    | tuple fields template peekable =>
      change (tuple e.schema (visit e levels) fields v).Yields own () at h
      match fields with
      | [field] =>
        obtain ⟨type, hr, hy⟩ := follow_yields_iff.mp h
        obtain ⟨key, hkey⟩ := ih hy
        exact ⟨key, .single hr hkey⟩
      | [] | _ :: _ :: _ =>
        unfold tuple tupleItems at h
        rw [hv.items] at h
        exact absurd h Output.not_yields_fail
    | option item =>
      obtain ⟨_, _, hitem⟩ := option_yields_of_present hv.isNull h
      obtain ⟨type, hr, hy⟩ := follow_yields_iff.mp hitem
      obtain ⟨key, hkey⟩ := ih hy
      exact ⟨.present key, .present hv.isNull hr hkey⟩
    | array length item =>
      change (array e.schema (visit e levels) length item v).Yields own () at h
      unfold array at h
      rw [hv.items] at h
      exact absurd h Output.not_yields_fail
    | vec item =>
      change (vec e.schema (visit e levels) item v).Yields own () at h
      unfold vec at h
      rw [hv.items] at h
      exact absurd h Output.not_yields_fail
    | map key value =>
      change (map e.schema (visit e levels) key value v).Yields own () at h
      unfold map at h
      rw [hv.mapping] at h
      exact absurd h Output.not_yields_fail

/-- A value has one reading as a key. -/
theorem ReadsKey.unique {e : Encoder} {type : Ty} {link : Link} {v : Value} {key key' : MapKey}
    (h : ReadsKey e type link v key) (h' : ReadsKey e type link v key') : key = key' := by
  induction h generalizing key' with
  | scalar h =>
    cases h' with
    | scalar h' => rw [Option.some.inj (h.symm.trans h')]
  | variant htable hvariant =>
    cases h' with
    | variant htable' hvariant' =>
      obtain rfl := Option.some.inj (htable.symm.trans htable')
      rw [Option.some.inj (hvariant.symm.trans hvariant')]
  | single hr _ ih =>
    cases h' with
    | single hr' h' =>
      obtain rfl := Schema.eq_of_resolve hr hr'
      exact ih h'
  | present _ hr _ ih =>
    cases h' with
    | present _ hr' h' =>
      obtain rfl := Schema.eq_of_resolve hr hr'
      rw [ih h']

/-! ## Readings and bytes -/

/-- A primitive is written as the textbook has its reading. -/
theorem primitive_eq_borsh {config : Config} {type : Primitive} {v : Value} {own : List UInt8}
    {d : Datum} (s : Schema) (hy : (primitive config type v).Yields own ())
    (hd : readPrimitive config type v = some d) : own = d.borsh s (.immediate type) := by
  cases type with
  | integer kind display =>
    obtain ⟨n, hn, hy⟩ := Output.yields_ofExcept_bind_iff.mp hy
    obtain ⟨i, hi, _, rfl⟩ := Write.integer_yields_iff.mp (written_yields_iff.mp hy)
    rw [readPrimitive, readInteger_of_value hn hi] at hd
    obtain rfl := Option.some.inj hd
    exact (Borsh.integer_eq kind i).symm
  | byteArray length display =>
    obtain ⟨data, hdata, hy⟩ := Output.yields_ofExcept_bind_iff.mp hy
    rw [readPrimitive, readBytes_of_byteString hdata] at hd
    obtain rfl := Option.some.inj hd
    split at hy
    · exact (written_emit_yields_iff.mp hy).symm
    · exact absurd hy Output.not_yields_fail
  | byteVec display =>
    obtain ⟨data, hdata, hy⟩ := Output.yields_ofExcept_bind_iff.mp hy
    rw [readPrimitive, readBytes_of_byteString hdata] at hd
    obtain rfl := Option.some.inj hd
    obtain ⟨_, _, hy⟩ := Output.yields_ofExcept_bind_iff.mp hy
    obtain ⟨front, _, back, hcount, hback, rfl⟩ := Output.yields_bind_iff.mp hy
    obtain ⟨_, rfl⟩ := Write.count_yields_iff.mp (written_yields_iff.mp hcount)
    obtain rfl := written_emit_yields_iff.mp hback
    rw [← Borsh.lowBytes_eq]
    rfl
  | float32 =>
    obtain ⟨x, hx, hy⟩ := Output.yields_ofExcept_bind_iff.mp hy
    rw [readPrimitive, readDouble_of_value hx] at hd
    obtain rfl := Option.some.inj hd
    obtain ⟨_, rfl⟩ := Write.single_yields_iff.mp (written_yields_iff.mp hy)
    exact (Borsh.lowBytes_eq 4 _).symm
  | float64 =>
    obtain ⟨x, hx, hy⟩ := Output.yields_ofExcept_bind_iff.mp hy
    rw [readPrimitive, readDouble_of_value hx] at hd
    obtain rfl := Option.some.inj hd
    obtain ⟨_, rfl⟩ := Write.double_yields_iff.mp (written_yields_iff.mp hy)
    exact (Borsh.lowBytes_eq 8 _).symm
  | string =>
    cases v with
    | text t =>
      obtain rfl := Option.some.inj hd
      obtain ⟨data, hdata, _, rfl⟩ := Write.string_yields_iff.mp (written_yields_iff.mp hy)
      obtain rfl := Borsh.eq_utf8_of_utf8? hdata
      rw [← Borsh.lowBytes_eq]
      rfl
    | _ => cases hd
  | boolean =>
    obtain ⟨b, hb, hy⟩ := Output.yields_ofExcept_bind_iff.mp hy
    rw [readPrimitive, readBool_of_value hb] at hd
    obtain rfl := Option.some.inj hd
    exact (written_emit_yields_iff.mp hy).symm
  | skip length =>
    obtain rfl := Option.some.inj hd
    exact (Output.yields_pure_iff.mp hy).1

/-- At a primitive type the bytes are the same exactly if the readings are. -/
theorem primitive_eq_iff (s : Schema) {config : Config} {type : Primitive} {v v' : Value}
    {own own' : List UInt8} {d d' : Datum} (hy : (primitive config type v).Yields own ())
    (hy' : (primitive config type v').Yields own' ()) (hd : readPrimitive config type v = some d)
    (hd' : readPrimitive config type v' = some d') : own = own' ↔ d = d' := by
  constructor
  · rintro rfl
    obtain ⟨a, ha, hreads⟩ := primitive_recovers config type v own hy
    obtain ⟨a', ha', hreads'⟩ := primitive_recovers config type v' own hy'
    obtain rfl := Option.some.inj (hd.symm.trans ha)
    obtain rfl := Option.some.inj (hd'.symm.trans ha')
    exact hreads.unique hreads'
  · rintro rfl
    rw [primitive_eq_borsh s hy hd, primitive_eq_borsh s hy' hd']

/-- What is written is written by a level of the walk. -/
theorem step_of_visit {e : Encoder} {levels : Nat} {type : Ty} {link : Link} {v : Value}
    {own : List UInt8} (h : (visit e levels type link v).Yields own ()) :
    ∃ below, (step e (visit e below) type link v).Yields own () := by
  cases levels with
  | zero => exact absurd h Output.not_yields_fail
  | succ below => exact ⟨below, h⟩

/-- Two keys of one type have the same bytes exactly if they have the same reading. -/
theorem ReadsKey.eq_iff {e : Encoder} {type : Ty} {link : Link} {v v' : Value}
    {key key' : MapKey} (h : ReadsKey e type link v key) (h' : ReadsKey e type link v' key')
    (hv : Partless v) (hv' : Partless v') {levels levels' : Nat} {own own' : List UInt8}
    (hy : (visit e levels type link v).Yields own ())
    (hy' : (visit e levels' type link v').Yields own' ()) : own = own' ↔ key = key' := by
  induction h generalizing levels levels' v' key' own own' with
  | scalar h =>
    cases h' with
    | scalar h' =>
      obtain ⟨_, hy⟩ := step_of_visit hy
      obtain ⟨_, hy'⟩ := step_of_visit hy'
      rw [MapKey.scalar.injEq]
      exact primitive_eq_iff e.schema hy hy' h h'
  | variant htable hvariant =>
    cases h' with
    | variant htable' hvariant' =>
      obtain ⟨_, hy⟩ := step_of_visit hy
      obtain ⟨_, hy'⟩ := step_of_visit hy'
      obtain ⟨_, _, variant, ht, h₁, h₂, rfl⟩ := enumeration_yields_of_partless hv hy
      obtain ⟨_, _, variant', ht', h₁', h₂', rfl⟩ := enumeration_yields_of_partless hv' hy'
      obtain rfl := Value.text.inj ht
      obtain rfl := Value.text.inj ht'
      obtain rfl := Option.some.inj (htable.symm.trans h₁)
      obtain rfl := Option.some.inj (htable'.symm.trans h₁')
      obtain rfl := Option.some.inj (hvariant.symm.trans h₂)
      obtain rfl := Option.some.inj (hvariant'.symm.trans h₂')
      rw [MapKey.variant.injEq, List.cons.injEq, and_iff_left rfl]
  | single hr _ ih =>
    cases h' with
    | single hr' h' =>
      obtain rfl := Schema.eq_of_resolve hr hr'
      obtain ⟨_, hy⟩ := step_of_visit hy
      obtain ⟨_, hy'⟩ := step_of_visit hy'
      change (follow e.schema _ _ _).Yields _ () at hy hy'
      rw [follow_of_resolve hr] at hy hy'
      exact ih h' hv hv' hy hy'
  | present hnull hr _ ih =>
    cases h' with
    | present hnull' hr' h' =>
      obtain rfl := Schema.eq_of_resolve hr hr'
      obtain ⟨_, hy⟩ := step_of_visit hy
      obtain ⟨_, hy'⟩ := step_of_visit hy'
      obtain ⟨rest, rfl, hitem⟩ := option_yields_of_present hnull hy
      obtain ⟨rest', rfl, hitem'⟩ := option_yields_of_present hnull' hy'
      rw [follow_of_resolve hr] at hitem hitem'
      rw [MapKey.present.injEq, List.cons.injEq, and_iff_right rfl]
      exact ih h' hv hv' hitem hitem'

/-! ## Types that tell texts apart -/

/-- Types at which no two texts are read as one key: texts themselves, the two words of truth values
and the names of variants with distinct discriminants, also as options or as tuples of one field. -/
inductive TellsTexts (s : Schema) : Ty → Prop where
  | string : TellsTexts s (.primitive .string)
  | boolean : TellsTexts s (.primitive .boolean)
  | enumeration {name : Text} {variants : List Variant} {hideTag : Bool}
    (distinct : (variants.map Variant.discriminant).Nodup) :
    TellsTexts s (.enumeration name variants hideTag)
  | single {field : UnnamedField} {template : Option Text} {peekable : Bool} {type : Ty}
    (hr : s.resolve field.type = .ok type) (h : TellsTexts s type) :
    TellsTexts s (.tuple [field] template peekable)
  | option {item : Link} {type : Ty} (hr : s.resolve item = .ok type) (h : TellsTexts s type) :
    TellsTexts s (.option item)

theorem TellsTexts.keyValue {s : Schema} {type : Ty} (h : TellsTexts s type) (t : Text) :
    keyValue type t = .ok (.text t) := by
  cases h <;> rfl

theorem eq_word_of_readPrimitive {config : Config} {t : Text} {d : Datum}
    (h : readPrimitive config .boolean (.text t) = some d) :
    t = "true" ∧ d = .bool true ∨ t = "false" ∧ d = .bool false := by
  rw [readPrimitive, readBool] at h
  split at h
  · exact .inl ⟨by assumption, (Option.some.inj h).symm⟩
  · split at h
    · exact .inr ⟨by assumption, (Option.some.inj h).symm⟩
    · cases h

/-- The name of a variant is known by its discriminant. -/
theorem eq_of_variantOf? {table : NameTable} {variants : List Variant} {t t' : Text}
    {variant variant' : Variant} (distinct : (variants.map Variant.discriminant).Nodup)
    (h : variantOf? table variants (.text t) = some variant)
    (h' : variantOf? table variants (.text t') = some variant')
    (heq : variant.discriminant = variant'.discriminant) : t = t' := by
  obtain ⟨place, hplace, hvariant⟩ := Option.bind_eq_some_iff.mp h
  obtain ⟨place', hplace', hvariant'⟩ := Option.bind_eq_some_iff.mp h'
  have hfirst := findIdx?_discriminant distinct hvariant
  have hfirst' := findIdx?_discriminant distinct hvariant'
  rw [heq] at hfirst
  obtain rfl := Option.some.inj (hfirst.symm.trans hfirst')
  rw [NameTable.position?_eq_idxOf?, List.idxOf?_eq_some_iff] at hplace hplace'
  obtain ⟨_, rfl, _⟩ := hplace
  obtain ⟨_, rfl, _⟩ := hplace'
  rfl

theorem ReadsKey.variant_inv {e : Encoder} {name t : Text} {variants : List Variant}
    {hideTag : Bool} {link : Link} {key : MapKey}
    (h : ReadsKey e (.enumeration name variants hideTag) link (.text t) key) :
    ∃ table variant, e.schema.table? link = some table ∧
      variantOf? table variants (.text t) = some variant ∧ key = .variant variant.discriminant := by
  cases h with
  | variant htable hvariant => exact ⟨_, _, htable, hvariant, rfl⟩

/-- Texts with one reading are the same text. -/
theorem TellsTexts.eq_of_readsKey {e : Encoder} {type : Ty} (h : TellsTexts e.schema type)
    {link : Link} {t t' : Text} {key : MapKey} (hkey : ReadsKey e type link (.text t) key)
    (hkey' : ReadsKey e type link (.text t') key) : t = t' := by
  induction h generalizing link key with
  | string =>
    cases hkey with
    | scalar hd =>
      cases hkey' with
      | scalar hd' => exact Datum.text.inj (Option.some.inj (hd.trans hd'.symm))
  | boolean =>
    cases hkey with
    | scalar hd =>
      cases hkey' with
      | scalar hd' =>
        rcases eq_word_of_readPrimitive hd with ⟨rfl, rfl⟩ | ⟨rfl, rfl⟩ <;>
          rcases eq_word_of_readPrimitive hd' with ⟨rfl, hb⟩ | ⟨rfl, hb⟩
        · rfl
        · cases hb
        · cases hb
        · rfl
  | enumeration distinct =>
    obtain ⟨table, variant, htable, hvariant, rfl⟩ := hkey.variant_inv
    obtain ⟨table', variant', htable', hvariant', heq⟩ := hkey'.variant_inv
    obtain rfl := Option.some.inj (htable.symm.trans htable')
    exact eq_of_variantOf? distinct hvariant hvariant' (MapKey.variant.inj heq)
  | single hr _ ih =>
    cases hkey with
    | single hr' h =>
      cases hkey' with
      | single hr'' h' =>
        obtain rfl := Schema.eq_of_resolve hr hr'
        obtain rfl := Schema.eq_of_resolve hr hr''
        exact ih h h'
  | option hr _ ih =>
    cases hkey with
    | present _ hr' h =>
      cases hkey' with
      | present _ hr'' h' =>
        obtain rfl := Schema.eq_of_resolve hr hr'
        obtain rfl := Schema.eq_of_resolve hr hr''
        exact ih h h'

/-! ## Written maps -/

/-- An entry of a map on the wire: the text of its key and what it is read as, and the bytes of the
key and of the value. -/
structure WireEntry where
  text : Text
  key : MapKey
  keyBytes : List UInt8
  valueBytes : List UInt8

/-- An entry of a map is written so: its key as the key type has it, then its value. -/
structure WritesEntry (e : Encoder) (keyType valueType : Ty) (key value : Link)
    (entry : Text × Value) (x : WireEntry) : Prop where
  text : x.text = entry.1
  keyed : ∃ k levels, keyValue keyType x.text = .ok k ∧ ReadsKey e keyType key k x.key ∧
    (visit e levels keyType key k).Yields x.keyBytes ()
  valued : ∃ levels, (visit e levels valueType value entry.2).Yields x.valueBytes ()

/-- A map is written so: the number of its entries, then the entries by ascending key text. -/
structure WritesMap (e : Encoder) (keyType : Ty) (key value : Link) (m : Mapping)
    (xs : List WireEntry) (own : List UInt8) : Prop where
  resolved : e.schema.resolve key = .ok keyType
  entries : ∃ valueType, e.schema.resolve value = .ok valueType ∧
    List.Forall₂ (WritesEntry e keyType valueType key value) (sortedEntries m.entries) xs
  bytes : own = littleEndian 4 xs.length ++ xs.flatMap fun x => x.keyBytes ++ x.valueBytes

theorem exists_writesEntry {e : Encoder} {levels : Nat} {keyType valueType : Ty} {key value : Link}
    {entry : Text × Value} {part : List UInt8}
    (h : (Output.ofExcept (keyValue keyType entry.1) >>= fun k => do
      visit e levels keyType key k
      visit e levels valueType value entry.2).Yields part ()) :
    ∃ x, WritesEntry e keyType valueType key value entry x ∧ part = x.keyBytes ++ x.valueBytes := by
  obtain ⟨k, hk, hy⟩ := Output.yields_ofExcept_bind_iff.mp h
  obtain ⟨front, _, back, hkey, hvalue, rfl⟩ := Output.yields_bind_iff.mp hy
  obtain ⟨d, hd⟩ := exists_readsKey (.of_keyValue hk) hkey
  exact ⟨⟨entry.1, d, front, back⟩, ⟨rfl, ⟨k, levels, hk, hd, hkey⟩, levels, hvalue⟩, rfl⟩

theorem exists_writesEntries {e : Encoder} {levels : Nat} {keyType valueType : Ty}
    {key value : Link} {entries : List (Text × Value)} {parts : List (List UInt8)}
    (h : List.Forall₂ (fun entry part =>
      (Output.ofExcept (keyValue keyType entry.1) >>= fun k => do
        visit e levels keyType key k
        visit e levels valueType value entry.2).Yields part ()) entries parts) :
    ∃ xs, List.Forall₂ (WritesEntry e keyType valueType key value) entries xs ∧
      parts = xs.map fun x => x.keyBytes ++ x.valueBytes := by
  induction h with
  | nil => exact ⟨[], .nil, rfl⟩
  | cons hpart _ ih =>
    obtain ⟨x, hx, rfl⟩ := exists_writesEntry hpart
    obtain ⟨xs, hxs, rfl⟩ := ih
    exact ⟨x :: xs, .cons hx hxs, rfl⟩

/-- What is put out for a map is written so. -/
theorem exists_writesMap {e : Encoder} {levels : Nat} {key value link : Link} {v : Value}
    {m : Mapping} {own : List UInt8} (hm : v.mapping? = some m)
    (h : (visit e levels (.map key value) link v).Yields own ()) :
    ∃ keyType xs, WritesMap e keyType key value m xs own := by
  obtain ⟨below, h⟩ := step_of_visit h
  change (map e.schema (visit e below) key value v).Yields own () at h
  unfold map at h
  rw [hm] at h
  obtain ⟨_, _, h⟩ := Output.yields_ofExcept_bind_iff.mp h
  obtain ⟨_, _, h⟩ := Output.yields_ofExcept_bind_iff.mp h
  obtain ⟨keyType, hkey, h⟩ := Output.yields_ofExcept_bind_iff.mp h
  obtain ⟨valueType, hvalue, h⟩ := Output.yields_ofExcept_bind_iff.mp h
  obtain ⟨_, _, h⟩ := Output.yields_ofExcept_bind_iff.mp h
  obtain ⟨front, _, back, hcount, hentries, rfl⟩ := Output.yields_bind_iff.mp h
  obtain ⟨_, rfl⟩ := Write.count_yields_iff.mp (written_yields_iff.mp hcount)
  obtain ⟨parts, hparts, rfl⟩ := Output.yields_forEach_iff.mp hentries
  obtain ⟨xs, hxs, rfl⟩ := exists_writesEntries hparts
  refine ⟨keyType, xs, Output.mapError_eq_ok_iff.mp hkey,
    ⟨valueType, Output.mapError_eq_ok_iff.mp hvalue, hxs⟩, ?_⟩
  rw [hxs.length_eq]
  rfl

namespace WritesMap

variable {e : Encoder} {keyType : Ty} {key value : Link} {m : Mapping} {xs : List WireEntry}
  {own : List UInt8} (h : WritesMap e keyType key value m xs own)

include h

theorem keyed {x : WireEntry} (hx : x ∈ xs) :
    ∃ k levels, Encode.keyValue keyType x.text = .ok k ∧ ReadsKey e keyType key k x.key ∧
      (visit e levels keyType key k).Yields x.keyBytes () := by
  obtain ⟨valueType, _, hxs⟩ := h.entries
  obtain ⟨i, hi, rfl⟩ := List.getElem_of_mem hx
  exact (hxs.get (hxs.length_eq ▸ hi) hi).keyed

theorem texts_eq : xs.map WireEntry.text = (sortedEntries m.entries).map Prod.fst := by
  obtain ⟨valueType, _, hxs⟩ := h.entries
  have htexts : List.Forall₂ (· = ·) ((sortedEntries m.entries).map Prod.fst)
      (xs.map WireEntry.text) := by
    rw [List.forall₂_map_left_iff, List.forall₂_map_right_iff]
    exact hxs.imp fun _ _ hx => hx.text.symm
  rw [List.forall₂_eq_eq_eq] at htexts
  exact htexts.symm

theorem nodup_texts_iff :
    (xs.map WireEntry.text).Nodup ↔ (m.entries.map fun entry => keyText entry.1).Nodup := by
  have hperm : ((sortedEntries m.entries).map Prod.fst).Perm
      (m.entries.map fun entry => keyText entry.1) := by
    have hsorted := (List.mergeSort_perm (m.entries.map fun entry => (keyText entry.1, entry.2))
      fun a b => textLE a.1 b.1).map Prod.fst
    rwa [List.map_map] at hsorted
  rw [h.texts_eq]
  exact hperm.nodup_iff

theorem keyBytes_eq_iff {x y : WireEntry} (hx : x ∈ xs) (hy : y ∈ xs) :
    x.keyBytes = y.keyBytes ↔ x.key = y.key := by
  obtain ⟨k, levels, hk, hread, hbytes⟩ := h.keyed hx
  obtain ⟨k', levels', hk', hread', hbytes'⟩ := h.keyed hy
  exact hread.eq_iff hread' (.of_keyValue hk) (.of_keyValue hk') hbytes hbytes'

/-- Entries with one text have one reading, and at types that tell texts apart also the other way
around. -/
theorem key_eq_iff (ht : TellsTexts e.schema keyType) {x y : WireEntry} (hx : x ∈ xs)
    (hy : y ∈ xs) : x.key = y.key ↔ x.text = y.text := by
  obtain ⟨k, levels, hk, hread, _⟩ := h.keyed hx
  obtain ⟨k', levels', hk', hread', _⟩ := h.keyed hy
  rw [ht.keyValue] at hk hk'
  obtain rfl := Except.ok.inj hk
  obtain rfl := Except.ok.inj hk'
  constructor
  · intro heq
    rw [heq] at hread
    exact ht.eq_of_readsKey hread hread'
  · intro heq
    rw [heq] at hread
    exact hread.unique hread'

end WritesMap

end Encode

namespace Encoder

open Encode (Stands Writes WritesMap TellsTexts WireEntry keyText)

/-- Wherever a map stands in a value that is encoded, it is written as its count and its entries by
ascending key text. The bytes of the keys are pairwise distinct exactly if the texts of the keys are
read as pairwise distinct keys; where the key type tells all texts apart, exactly if the texts are
pairwise distinct. Nothing else is asked of the keys: texts that are read alike are written alike. -/
theorem mapKeys_nodup_iff {e : Encoder} {index v : Value} {bytes : List UInt8}
    (h : e.encode index v = .ok bytes ∨ ∃ stack, e.run stack index v = .ok bytes) {key value link : Link}
    {w : Value} {m : Mapping} (hstands : Stands e.schema index v (.map key value) link w)
    (hm : w.mapping? = some m) :
    ∃ keyType xs own, WritesMap e keyType key value m xs own ∧ own <:+: bytes ∧
      (∀ x ∈ xs, ∀ y ∈ xs, x.keyBytes = y.keyBytes ↔ x.key = y.key) ∧
      ((xs.map WireEntry.keyBytes).Nodup ↔ (xs.map WireEntry.key).Nodup) ∧
      (TellsTexts e.schema keyType → ((xs.map WireEntry.keyBytes).Nodup ↔
        (m.entries.map fun entry => keyText entry.1).Nodup)) := by
  obtain ⟨own, ⟨levels, hy⟩, hwithin⟩ : ∃ own, Writes e bytes (.map key value) link w own := by
    rcases h with h | ⟨stack, h⟩ <;> exact writes_of_stands h hstands
  obtain ⟨keyType, xs, hw⟩ := Encode.exists_writesMap hm hy
  refine ⟨keyType, xs, own, hw, hwithin, fun x hx y hy => hw.keyBytes_eq_iff hx hy, ?_, ?_⟩
  · exact nodup_map_iff_of_eq_iff fun x hx y hy => hw.keyBytes_eq_iff hx hy
  · intro ht
    rw [← hw.nodup_texts_iff]
    exact nodup_map_iff_of_eq_iff fun x hx y hy =>
      (hw.keyBytes_eq_iff hx hy).trans (hw.key_eq_iff ht hx hy)

end Encoder

/-- Numbers as keys. -/
def Link.smallNumber : Link :=
  .immediate (.integer ⟨false, .w8⟩ ⟨.decimal, none, none, none⟩)

/-- Switches by number. -/
def Encoder.switches : Encoder :=
  ⟨.build [.map .smallNumber (.immediate .boolean)] [0] [⟨"", []⟩] none [] [], .default⟩

/-- A mapping with two keys that are one number. -/
def Mapping.twinKeys : Mapping := ⟨.ok 2, [(.text "01", .bool false), (.text "1", .bool true)]⟩

theorem Mapping.sortedEntries_twinKeys :
    Encode.sortedEntries twinKeys.entries = [(("01" : Text), .bool false), ("1", .bool true)] :=
  List.mergeSort_of_pairwise (by decide)

namespace Encoder

open Encode (Stands WritesMap WireEntry)

theorem encode_twinKeys :
    switches.encode (.int 0) (.map Mapping.twinKeys.entries) = .ok [2, 0, 0, 0, 1, 0, 1, 1] := by
  show (Encode.map switches.schema (Encode.visit switches 256) _ _
    (.map Mapping.twinKeys.entries)).result = _
  unfold Encode.map
  simp only [Value.mapping?, Mapping.sortedEntries_twinKeys]
  rfl

theorem stands_twinKeys :
    Stands switches.schema (.int 0) (.map Mapping.twinKeys.entries)
      (.map .smallNumber (.immediate .boolean)) (.byIndex 0) (.map Mapping.twinKeys.entries) :=
  .root rfl rfl

/-- How the switches are written. -/
theorem twinKeys_nodup_iff :
    ∃ keyType xs own,
      WritesMap switches keyType .smallNumber (.immediate .boolean) Mapping.twinKeys xs own ∧
        own <:+: [2, 0, 0, 0, 1, 0, 1, 1] ∧
        ((xs.map WireEntry.keyBytes).Nodup ↔ (xs.map WireEntry.key).Nodup) := by
  obtain ⟨keyType, xs, own, hwrites, hown, _, hnodup, _⟩ :=
    mapKeys_nodup_iff (.inl encode_twinKeys) stands_twinKeys rfl
  exact ⟨keyType, xs, own, hwrites, hown, hnodup⟩

/-- Two distinct keys of a mapping that is encoded can have the same bytes: `01` and `1` are both
written as the number one. -/
theorem twinKeys_not_nodup :
    switches.encode (.int 0) (.map Mapping.twinKeys.entries) = .ok [2, 0, 0, 0, 1, 0, 1, 1] ∧
      Stands switches.schema (.int 0) (.map Mapping.twinKeys.entries)
        (.map .smallNumber (.immediate .boolean)) (.byIndex 0) (.map Mapping.twinKeys.entries) ∧
      (Mapping.twinKeys.entries.map Prod.fst).Nodup ∧
      ∃ keyType xs,
        WritesMap switches keyType .smallNumber (.immediate .boolean) Mapping.twinKeys xs
          [2, 0, 0, 0, 1, 0, 1, 1] ∧
        ¬(xs.map WireEntry.keyBytes).Nodup := by
  have hnodup : (Mapping.twinKeys.entries.map Prod.fst).Nodup := by
    show [Key.text "01", Key.text "1"].Nodup
    rw [List.nodup_cons, List.mem_singleton, Key.text.injEq]
    exact ⟨by decide, List.nodup_singleton _⟩
  have hfirst : Encode.WritesEntry switches
      (.primitive (.integer ⟨false, .w8⟩ ⟨.decimal, none, none, none⟩)) (.primitive .boolean)
      .smallNumber (.immediate .boolean) ("01", .bool false)
      ⟨"01", .scalar (.integer 1), [1], [0]⟩ :=
    ⟨rfl, ⟨.int 1, 1, rfl, .scalar rfl, rfl⟩, 1, rfl⟩
  have hsecond : Encode.WritesEntry switches
      (.primitive (.integer ⟨false, .w8⟩ ⟨.decimal, none, none, none⟩)) (.primitive .boolean)
      .smallNumber (.immediate .boolean) ("1", .bool true)
      ⟨"1", .scalar (.integer 1), [1], [1]⟩ :=
    ⟨rfl, ⟨.int 1, 1, rfl, .scalar rfl, rfl⟩, 1, rfl⟩
  refine ⟨encode_twinKeys, stands_twinKeys, hnodup, _,
    [⟨"01", .scalar (.integer 1), [1], [0]⟩, ⟨"1", .scalar (.integer 1), [1], [1]⟩],
    ⟨rfl, ⟨_, rfl, ?_⟩, rfl⟩, by decide⟩
  rw [Mapping.sortedEntries_twinKeys]
  exact .cons hfirst (.cons hsecond .nil)

end Encoder

end BorshWire
