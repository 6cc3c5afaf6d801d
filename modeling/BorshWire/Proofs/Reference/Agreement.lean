import BorshWire.Proofs.Entries
import BorshWire.Proofs.Reference.Primitives
import BorshWire.Proofs.Schema.Complete
import BorshWire.Proofs.Schema.Names
import BorshWire.Proofs.Simulation.Output
import BorshWire.Proofs.Text.Decimal

/-!
# Plain documents are encoded as Borsh

`encode_json`: against a complete schema the plain document of a typed value is accepted, and its
encoding is that of the textbook serializer. The walk and the serializer go along the same links, so
that every level has to be compared only under the assumption that the next one agrees
(`Serializes`).
-/

namespace BorshWire

namespace Encode

/-- The document of the datum is written as the serializer has it, at every complete link that the
datum fits. -/
def Serializes (s : Schema) (next : Visit) (d : Datum) : Prop :=
  ∀ {link : Link}, s.Complete link → d.Fits s link →
    (follow s next link (d.json s link)).Yields (d.borsh s link) ()

section

variable {s : Schema} {next : Visit}

/-! ## Components -/

theorem forEach_serializes {link : Link} (hc : s.Complete link) {items : List Datum}
    (hitems : ∀ d ∈ items, d.Fits s link ∧ Serializes s next d) :
    (Output.forEach (follow s next link) (Datum.jsonAll s link items)).Yields
      (Datum.borshAll s link items) () := by
  induction items with
  | nil => exact Output.yields_forEach_nil_iff.mpr rfl
  | cons d rest ih =>
    obtain ⟨hfits, hnext⟩ := hitems d List.mem_cons_self
    exact Output.yields_forEach_cons_iff.mpr
      ⟨_, _, hnext hc hfits, ih fun d hd => hitems d (List.mem_cons_of_mem _ hd), rfl⟩

theorem positions_serializes {types : List UnnamedField} {items : List Datum}
    (hc : ∀ type ∈ types, s.Complete type.type)
    (hfits : List.Forall₂ (Datum.Fits s) (types.map UnnamedField.type) items)
    (hnext : ∀ d ∈ items, Serializes s next d) :
    (positions s next types (Datum.jsonEach s (types.map UnnamedField.type) items)).Yields
      (Datum.borshEach s (types.map UnnamedField.type) items) () := by
  induction types generalizing items with
  | nil => cases hfits; exact Output.yields_pure_iff.mpr ⟨rfl, rfl⟩
  | cons type types ih =>
    cases hfits with
    | cons hfit hrest =>
      have hfirst := hnext _ List.mem_cons_self (hc _ List.mem_cons_self) hfit
      have hothers := ih (fun t ht => hc t (List.mem_cons_of_mem _ ht)) hrest
        fun d hd => hnext d (List.mem_cons_of_mem _ hd)
      exact Output.yields_bind_iff.mpr ⟨_, (), _, hfirst, hothers, rfl⟩

theorem fieldsOf_serializes (container : Text) {types : List NamedField} {names : List Text}
    {fields : List Datum} (hlength : names.length = types.length)
    (hc : ∀ type ∈ types, s.Complete type.type)
    (hfits : List.Forall₂ (Datum.Fits s) (types.map NamedField.type) fields)
    (hnext : ∀ d ∈ fields, Serializes s next d) :
    (fieldsOf s next container types names ((names.map Key.text).zip
      (Datum.jsonEach s (types.map NamedField.type) fields))).Yields
      (Datum.borshEach s (types.map NamedField.type) fields) [] := by
  induction types generalizing names fields with
  | nil =>
    cases hfits
    rw [List.eq_nil_of_length_eq_zero hlength]
    exact Output.yields_pure_iff.mpr ⟨rfl, rfl⟩
  | cons type types ih =>
    cases names with
    | nil => cases hlength
    | cons name names =>
      cases hfits with
      | cons hfit hrest =>
        have hfirst := hnext _ List.mem_cons_self (hc _ List.mem_cons_self) hfit
        have hothers := ih (Nat.succ.inj hlength) (fun t ht => hc t (List.mem_cons_of_mem _ ht))
          hrest fun d hd => hnext d (List.mem_cons_of_mem _ hd)
        rw [fieldsOf]
        simp only [List.map_cons, Datum.jsonEach, List.zip_cons_cons, takeEntry, if_true]
        exact Output.yields_bind_iff.mpr ⟨_, (), _, hfirst, hothers, rfl⟩

/-! ## Maps -/

theorem borshEntries_sorted (key value : Link) (entries : List (Datum × Datum)) :
    (Datum.borshEntries s key value entries).mergeSort (fun a b => !b.1.lex a.1) =
      (entries.mergeSort fun a b => textLE a.1.keyText b.1.keyText).map fun entry =>
        (entry.1.keyText, entry.1.borsh s key ++ entry.2.borsh s value) := by
  rw [Datum.borshEntries_eq_map]
  symm
  apply List.map_mergeSort
  intro a _ b _
  exact textLE_eq _ _

theorem checkKeys_jsonEntries (value : Link) (entries : List (Datum × Datum)) :
    checkKeys (Datum.jsonEntries s value entries) = .ok () := by
  refine checkKeys_of_texts fun e he => ?_
  rw [Datum.jsonEntries_eq_map] at he
  obtain ⟨entry, _, rfl⟩ := List.mem_map.mp he
  exact ⟨_, rfl⟩

theorem jsonEntries_sorted (value : Link) (entries : List (Datum × Datum)) :
    sortedEntries (Datum.jsonEntries s value entries) =
      (entries.mergeSort fun a b => textLE a.1.keyText b.1.keyText).map fun entry =>
        (entry.1.keyText, entry.2.json s value) := by
  rw [Datum.jsonEntries_eq_map, sortedEntries, List.map_map]
  symm
  apply List.map_mergeSort
  intro a _ b _
  rfl

theorem keyValue_keyText {key : Link} {keyType : Ty} {d : Datum}
    (hkey : s.resolve key = .ok keyType) (hisKey : keyType.IsKey) (hfits : d.Fits s key) :
    keyValue keyType d.keyText = .ok (d.json s key) := by
  rcases hisKey with rfl | ⟨kind, display, rfl⟩
  · obtain ⟨t, rfl⟩ := hfits.of_string hkey
    rfl
  · obtain ⟨n, rfl, range⟩ := hfits.of_integer hkey
    have hdigits : (Text.ofNat n.natAbs).length ≤ 39 :=
      Text.length_ofNat_le (by decide) (IntKind.natAbs_lt_of_holds range)
    have hnumber := numberOfText?_ofInt (Nat.le_trans hdigits (by decide))
    simp [keyValue, isNumeric, Datum.keyText, Datum.json, hnumber]

/-- The entries of a map are written in the order of their key texts. -/
theorem entries_serialize {key value : Link} {keyType valueType : Ty}
    (hkey : s.resolve key = .ok keyType) (hvalue : s.resolve value = .ok valueType)
    (hisKey : keyType.IsKey) (hckey : s.Complete key) (hcvalue : s.Complete value)
    {entries : List (Datum × Datum)}
    (hfits : ∀ entry ∈ entries, entry.1.Fits s key ∧ entry.2.Fits s value)
    (hnext : ∀ entry ∈ entries, Serializes s next entry.1 ∧ Serializes s next entry.2) :
    (Output.forEach (fun e => do
        let k ← Output.ofExcept (keyValue keyType e.1)
        next keyType key k
        next valueType value e.2)
      (entries.map fun entry => (entry.1.keyText, entry.2.json s value))).Yields
      ((entries.map fun entry =>
        (entry.1.keyText, entry.1.borsh s key ++ entry.2.borsh s value)).flatMap Prod.snd) () := by
  induction entries with
  | nil => exact Output.yields_forEach_nil_iff.mpr rfl
  | cons entry rest ih =>
    obtain ⟨hkfits, hvfits⟩ := hfits entry List.mem_cons_self
    obtain ⟨hknext, hvnext⟩ := hnext entry List.mem_cons_self
    have hk := hknext hckey hkfits
    have hv := hvnext hcvalue hvfits
    rw [follow_of_resolve hkey] at hk
    rw [follow_of_resolve hvalue] at hv
    have hrest := ih (fun e he => hfits e (List.mem_cons_of_mem _ he))
      fun e he => hnext e (List.mem_cons_of_mem _ he)
    refine Output.yields_forEach_cons_iff.mpr ⟨_, _, ?_, hrest, rfl⟩
    refine Output.yields_ofExcept_bind_iff.mpr ⟨_, keyValue_keyText hkey hisKey hkfits, ?_⟩
    exact Output.yields_bind_iff.mpr ⟨_, (), _, hk, hv, rfl⟩

/-! ## Primitives -/

theorem floatValue_float {x : Double} (h : x.isFinite = true) (name : Text) :
    floatValue name (.float x) = .ok x := if_pos h

theorem count_yields {n : Nat} (h : n < twoPow 32) :
    (written (Write.count n)).Yields (Borsh.count n) () :=
  written_yields_iff.mpr (Write.count_yields_iff.mpr ⟨h, Borsh.lowBytes_eq 4 n⟩)

theorem checkCount_of_lt {n : Nat} (h : n < twoPow 32) : checkCount n = .ok () :=
  checkCount_eq_ok_iff.mpr (Nat.le_sub_one_of_lt h)

/-- Primitive data are written as the serializer has them. -/
theorem primitive_serializes {link : Link} {type : Primitive} {d : Datum} (config : Config)
    (hr : s.resolve link = .ok (.primitive type)) (hfits : d.Fits s link) :
    (primitive config type (d.json s link)).Yields (d.borsh s link) () := by
  cases hfits with
  | integer h range =>
    obtain rfl := Ty.primitive.inj (Schema.eq_of_resolve hr h)
    refine Output.yields_ofExcept_bind_iff.mpr ⟨_, rfl, written_yields_iff.mpr ?_⟩
    rw [Datum.borsh, h, Write.integer_yields_iff]
    exact ⟨_, rfl, IntKind.contains_of_holds range, Borsh.integer_eq _ _⟩
  | @byteArray _ _ _ data h size =>
    obtain rfl := Ty.primitive.inj (Schema.eq_of_resolve hr h)
    refine Output.yields_ofExcept_bind_iff.mpr ⟨_, byteItems_ofByte data, ?_⟩
    rw [Datum.borsh, h]
    dsimp only
    rw [if_pos size]
    exact written_emit_yields_iff.mpr rfl
  | @byteVec _ _ data h size =>
    obtain rfl := Ty.primitive.inj (Schema.eq_of_resolve hr h)
    refine Output.yields_ofExcept_bind_iff.mpr ⟨_, byteItems_ofByte data, ?_⟩
    refine Output.yields_ofExcept_bind_iff.mpr ⟨_, checkCount_of_lt size, ?_⟩
    rw [Datum.borsh, h]
    exact Output.yields_bind_iff.mpr
      ⟨_, (), _, count_yields size, written_emit_yields_iff.mpr rfl, rfl⟩
  | @single _ word h finite =>
    obtain rfl := Ty.primitive.inj (Schema.eq_of_resolve hr h)
    have hfinite := Double.isFinite_ofSingle finite
    refine Output.yields_ofExcept_bind_iff.mpr ⟨_, floatValue_float hfinite _, ?_⟩
    rw [written_yields_iff, Write.single_yields_iff, Datum.borsh, Borsh.lowBytes_eq,
      Write.singleBytes, Double.toSingle_ofSingle finite]
    exact ⟨hfinite, rfl⟩
  | @double _ word h finite =>
    obtain rfl := Ty.primitive.inj (Schema.eq_of_resolve hr h)
    refine Output.yields_ofExcept_bind_iff.mpr ⟨_, floatValue_float finite _, ?_⟩
    rw [written_yields_iff, Write.double_yields_iff, Datum.borsh, Borsh.lowBytes_eq]
    exact ⟨finite, rfl⟩
  | @text _ t h valid size =>
    obtain rfl := Ty.primitive.inj (Schema.eq_of_resolve hr h)
    refine written_yields_iff.mpr (Write.string_yields_iff.mpr ?_)
    rw [Datum.borsh, Borsh.count, Borsh.lowBytes_eq]
    exact ⟨_, Borsh.utf8?_eq valid, size, rfl⟩
  | bool h =>
    obtain rfl := Ty.primitive.inj (Schema.eq_of_resolve hr h)
    exact Output.yields_ofExcept_bind_iff.mpr ⟨_, rfl, written_emit_yields_iff.mpr rfl⟩
  | unit h =>
    obtain rfl := Ty.primitive.inj (Schema.eq_of_resolve hr h)
    exact Output.yields_pure_iff.mpr ⟨rfl, rfl⟩
  | bare h | variant h =>
    unfold Schema.variant? at h
    rw [hr] at h
    cases h
  | struct h | absent h | present h | tuple h | array h | vec h | map h =>
    cases Schema.eq_of_resolve hr h

/-! ## Enums -/

theorem variant?_eq_some {link : Link} {position : Nat} {variant : Variant}
    (h : s.variant? link position = some variant) :
    ∃ name variants hideTag, s.resolve link = .ok (.enumeration name variants hideTag) ∧
      variants[position]? = some variant := by
  unfold Schema.variant? at h
  split at h
  · rename_i name variants hideTag hr
    exact ⟨name, variants, hideTag, hr, h⟩
  · cases h

theorem enumeration_yields {container name : Text} {variants : List Variant} {link : Link}
    {v inner : Value} {table : NameTable} {position : Nat} {variant : Variant}
    {bytes : List UInt8} (hselection : selection container v = .ok (.text name, inner))
    (htable : s.table? link = some table) (hname : table.position? name = some position)
    (hvariant : variants[position]? = some variant)
    (hpayload : (payload s next container variant inner).Yields bytes ()) :
    (enumeration s next container variants link v).Yields (variant.discriminant :: bytes) () := by
  have hfound : variantOf? table variants (.text name) = some variant := by
    rw [variantOf?, hname]
    exact hvariant
  refine Output.yields_ofExcept_bind_iff.mpr ⟨_, hselection, ?_⟩
  dsimp only
  rw [htable]
  dsimp only
  rw [hfound]
  exact Output.yields_bind_iff.mpr ⟨[variant.discriminant], (), bytes,
    written_emit_yields_iff.mpr rfl, hpayload, rfl⟩

theorem exists_name {link : Link} {name : Text} {variants : List Variant} {hideTag : Bool}
    {position : Nat} {variant : Variant} (hc : s.Complete link)
    (hr : s.resolve link = .ok (.enumeration name variants hideTag))
    (hvariant : variants[position]? = some variant) :
    ∃ table, s.table? link = some table ∧
      table.position? ((s.names link)[position]?.getD []) = some position := by
  obtain ⟨table, htable, hnodup, hlength⟩ := hc.described.named hr rfl
  obtain ⟨hlt, _⟩ := List.getElem?_eq_some_iff.mp hvariant
  have hnames := Schema.names_of_table? htable
  have hname := List.getElem?_eq_getElem (show position < table.names.length by omega)
  refine ⟨table, htable, ?_⟩
  rw [hnames, hname]
  exact NameTable.position?_of_nodup hnodup hname

theorem bare_serializes {link : Link} {name : Text} {variants : List Variant} {hideTag : Bool}
    {position : Nat} {variant : Variant} (hc : s.Complete link)
    (hr : s.resolve link = .ok (.enumeration name variants hideTag))
    (h : s.variant? link position = some variant) (hvariant : variants[position]? = some variant)
    (lacks : variant.payload = none) :
    (enumeration s next name variants link (Datum.json s link (.bare position))).Yields
      (Datum.borsh s link (.bare position)) () := by
  obtain ⟨table, htable, hname⟩ := exists_name hc hr hvariant
  rw [Datum.json, Datum.borsh, h]
  refine enumeration_yields rfl htable hname hvariant ?_
  unfold payload
  rw [lacks]
  exact Output.yields_pure_iff.mpr ⟨rfl, rfl⟩

theorem not_isNull {v : Value} (h : v ≠ .null) : ¬v.isNull = true :=
  fun hnull => h (Value.isNull_iff.mp hnull)

theorem variant_serializes {link inner : Link} {name : Text} {variants : List Variant}
    {hideTag : Bool} {position : Nat} {variant : Variant} {d : Datum} (hc : s.Complete link)
    (hr : s.resolve link = .ok (.enumeration name variants hideTag))
    (h : s.variant? link position = some variant) (hvariant : variants[position]? = some variant)
    (declares : variant.payload = some inner) (fits : d.Fits s inner)
    (written : d.json s inner ≠ .null) (hnext : Serializes s next d) :
    (enumeration s next name variants link (Datum.json s link (.variant position d))).Yields
      (Datum.borsh s link (.variant position d)) () := by
  obtain ⟨table, htable, hname⟩ := exists_name hc hr hvariant
  have hchild : s.Complete inner :=
    hc.child hr (List.mem_filterMap.mpr ⟨variant, List.mem_of_getElem? hvariant, declares⟩)
  obtain ⟨variantName, discriminant, template, _⟩ := variant
  obtain rfl := declares
  rw [Datum.json, Datum.borsh, h]
  refine enumeration_yields rfl htable hname hvariant ?_
  show (if _ then _ else _ : Output EncodeError Unit).Yields _ ()
  rw [if_neg (not_isNull written)]
  exact hnext hchild fits

theorem present_serializes {link inner : Link} {d : Datum} (hc : s.Complete link)
    (hr : s.resolve link = .ok (.option inner)) (fits : d.Fits s inner)
    (written : d.json s inner ≠ .null) (hnext : Serializes s next d) :
    (option s next inner (Datum.json s link (.present d))).Yields
      (Datum.borsh s link (.present d)) () := by
  rw [Datum.json, Datum.borsh, hr]
  show (if _ then _ else _ : Output EncodeError Unit).Yields _ ()
  rw [if_neg (not_isNull written)]
  exact Output.yields_bind_iff.mpr ⟨[1], (), _, written_emit_yields_iff.mpr rfl,
    hnext (hc.child hr List.mem_cons_self) fits, rfl⟩

/-! ## Structs, tuples and sequences -/

theorem struct_serializes {link : Link} {name : Text} {types : List NamedField}
    {template : Option Text} {peekable : Bool} {fields : List Datum} (hc : s.Complete link)
    (hr : s.resolve link = .ok (.struct name types template peekable))
    (hfits : List.Forall₂ (Datum.Fits s) (types.map NamedField.type) fields)
    (hnext : ∀ d ∈ fields, Serializes s next d) :
    (struct s next name types link (Datum.json s link (.struct fields))).Yields
      (Datum.borsh s link (.struct fields)) () := by
  rw [Datum.json, Datum.borsh, hr]
  obtain ⟨table, htable, _, hlength⟩ := hc.described.named hr rfl
  have hnames := Schema.names_of_table? htable
  have hchildren : ∀ type ∈ types, s.Complete type.type := fun type htype =>
    hc.child hr (List.mem_map_of_mem htype)
  have hfields := fieldsOf_serializes name hlength hchildren hfits hnext
  unfold struct
  dsimp only [Value.mapping?]
  rw [htable, hnames]
  dsimp only
  rw [if_neg (by omega)]
  exact Output.yields_bind_iff.mpr
    ⟨_, [], [], hfields, Output.yields_pure_iff.mpr ⟨rfl, rfl⟩, (List.append_nil _).symm⟩

theorem tupleItems_serializes {types : List UnnamedField} {items : List Datum}
    (hc : ∀ type ∈ types, s.Complete type.type)
    (hfits : List.Forall₂ (Datum.Fits s) (types.map UnnamedField.type) items)
    (hnext : ∀ d ∈ items, Serializes s next d) :
    (tupleItems s next types
      (.list (Datum.jsonEach s (types.map UnnamedField.type) items))).Yields
      (Datum.borshEach s (types.map UnnamedField.type) items) () := by
  have hlength : (Datum.jsonEach s (types.map UnnamedField.type) items).length = types.length := by
    rw [Datum.length_jsonEach hfits.length_eq, List.length_map]
  refine Output.yields_ofExcept_bind_iff.mpr ⟨_, rfl, ?_⟩
  rw [if_pos hlength]
  exact positions_serializes hc hfits hnext

theorem tuple_serializes {link : Link} {types : List UnnamedField} {template : Option Text}
    {peekable : Bool} {items : List Datum} (hc : s.Complete link)
    (hr : s.resolve link = .ok (.tuple types template peekable))
    (hfits : List.Forall₂ (Datum.Fits s) (types.map UnnamedField.type) items)
    (hnext : ∀ d ∈ items, Serializes s next d) :
    (tuple s next types (Datum.json s link (.list items))).Yields
      (Datum.borsh s link (.list items)) () := by
  have hchildren : ∀ type ∈ types, s.Complete type.type := fun type htype =>
    hc.child hr (List.mem_map_of_mem htype)
  have hitems := tupleItems_serializes hchildren hfits hnext
  rw [Datum.json, Datum.borsh, hr]
  match types, items, hfits with
  | [], [], _ => exact hitems
  | [type], [d], .cons hfit _ =>
    have hfirst := hnext d List.mem_cons_self (hchildren type List.mem_cons_self) hfit
    show (follow s next type.type (d.json s type.type)).Yields (d.borsh s type.type ++ []) ()
    rw [List.append_nil]
    exact hfirst
  | _ :: _ :: _, _ :: _ :: _, _ => exact hitems

theorem items_serialize {inner : Link} {type : Ty} (hc : s.Complete inner)
    (hr : s.resolve inner = .ok type) {items : List Datum}
    (hitems : ∀ d ∈ items, d.Fits s inner ∧ Serializes s next d) :
    (Write.forItems .unreadable (.listed (Datum.jsonAll s inner items)) (next type inner)).Yields
      (Datum.borshAll s inner items) () := by
  have hfollow : next type inner = follow s next inner :=
    funext fun v => (follow_of_resolve hr next v).symm
  rw [hfollow]
  exact forEach_serializes hc hitems

theorem resolved {link : Link} {type : Ty} (hr : s.resolve link = .ok type) :
    (s.resolve link).mapError EncodeError.unresolved = .ok type :=
  Output.mapError_eq_ok_iff.mpr hr

theorem array_serializes {link inner : Link} {length : Nat} (hc : s.Complete link)
    (hr : s.resolve link = .ok (.array length inner)) {items : List Datum}
    (size : items.length = length) (hfits : ∀ d ∈ items, d.Fits s inner)
    (hnext : ∀ d ∈ items, Serializes s next d) :
    (array s next length inner (Datum.json s link (.list items))).Yields
      (Datum.borsh s link (.list items)) () := by
  have hchild := hc.child hr List.mem_cons_self
  obtain ⟨type, hinner⟩ := hchild.described.resolves
  rw [Datum.json, Datum.borsh, hr]
  refine Output.yields_ofExcept_bind_iff.mpr ⟨_, rfl, ?_⟩
  rw [if_pos ((Datum.length_jsonAll s inner items).trans size)]
  refine Output.yields_ofExcept_bind_iff.mpr ⟨type, resolved hinner, ?_⟩
  exact items_serialize hchild hinner fun d hd => ⟨hfits d hd, hnext d hd⟩

theorem vec_serializes {link inner : Link} (hc : s.Complete link)
    (hr : s.resolve link = .ok (.vec inner)) {items : List Datum}
    (size : items.length < twoPow 32) (hfits : ∀ d ∈ items, d.Fits s inner)
    (hnext : ∀ d ∈ items, Serializes s next d) :
    (vec s next inner (Datum.json s link (.list items))).Yields
      (Datum.borsh s link (.list items)) () := by
  have hchild := hc.child hr List.mem_cons_self
  obtain ⟨type, hinner⟩ := hchild.described.resolves
  rw [Datum.json, Datum.borsh, hr]
  show (vec s next inner (.list (Datum.jsonAll s inner items))).Yields
    (Borsh.count items.length ++ Datum.borshAll s inner items) ()
  have hlength := Datum.length_jsonAll s inner items
  rw [← hlength] at size ⊢
  refine Output.yields_ofExcept_bind_iff.mpr ⟨_, rfl, ?_⟩
  refine Output.yields_ofExcept_bind_iff.mpr ⟨(), checkCount_of_lt size, ?_⟩
  refine Output.yields_ofExcept_bind_iff.mpr ⟨type, resolved hinner, ?_⟩
  exact Output.yields_bind_iff.mpr ⟨_, (), _, count_yields size,
    items_serialize hchild hinner fun d hd => ⟨hfits d hd, hnext d hd⟩, rfl⟩

theorem map_serializes {link key value : Link} {keyType : Ty} (hc : s.Complete link)
    (hr : s.resolve link = .ok (.map key value)) (hkey : s.resolve key = .ok keyType)
    (hisKey : keyType.IsKey) {entries : List (Datum × Datum)} (size : entries.length < twoPow 32)
    (hfits : ∀ entry ∈ entries, entry.1.Fits s key ∧ entry.2.Fits s value)
    (hnext : ∀ entry ∈ entries, Serializes s next entry.1 ∧ Serializes s next entry.2) :
    (map s next key value (Datum.json s link (.map entries))).Yields
      (Datum.borsh s link (.map entries)) () := by
  have hckey := hc.child hr List.mem_cons_self
  have hcvalue := hc.child hr (List.mem_cons_of_mem _ List.mem_cons_self)
  obtain ⟨valueType, hvalue⟩ := hcvalue.described.resolves
  have hlength : (Datum.jsonEntries s value entries).length = entries.length := by
    rw [Datum.jsonEntries_eq_map, List.length_map]
  have hsorted := jsonEntries_sorted (s := s) value entries
  have hmem : ∀ {entry : Datum × Datum},
      entry ∈ (entries.mergeSort fun a b => textLE a.1.keyText b.1.keyText) → entry ∈ entries :=
    List.mem_mergeSort.mp
  have hentries := entries_serialize hkey hvalue hisKey hckey hcvalue
    (fun entry h => hfits entry (hmem h)) fun entry h => hnext entry (hmem h)
  rw [Datum.json, Datum.borsh, hr]
  refine Output.yields_ofExcept_bind_iff.mpr ⟨entries.length, ?_, ?_⟩
  · exact congrArg (fun n => Except.ok n) hlength
  refine Output.yields_ofExcept_bind_iff.mpr ⟨(), checkCount_of_lt size, ?_⟩
  refine Output.yields_ofExcept_bind_iff.mpr ⟨keyType, resolved hkey, ?_⟩
  refine Output.yields_ofExcept_bind_iff.mpr ⟨valueType, resolved hvalue, ?_⟩
  refine Output.yields_ofExcept_bind_iff.mpr ⟨(), checkKeys_jsonEntries value entries, ?_⟩
  dsimp only
  rw [length_sortedEntries, hlength, hsorted, borshEntries_sorted]
  exact Output.yields_bind_iff.mpr ⟨_, (), _, count_yields size, hentries, rfl⟩

end

/-! ## The walk -/

/-- If data are written as the serializer has them at the next level, so are data one deeper at this
one. -/
theorem step_serializes {e : Encoder} {next : Visit} {levels : Nat}
    (ih : ∀ d : Datum, d.nesting < levels → Serializes e.schema next d) {d : Datum}
    (hd : d.nesting < levels + 1) : Serializes e.schema (step e next) d := by
  intro link hc hfits
  obtain ⟨type, hr⟩ := hc.described.resolves
  rw [follow_of_resolve hr]
  by_cases hprimitive : ∃ primitive, type = .primitive primitive
  · obtain ⟨primitive, rfl⟩ := hprimitive
    exact primitive_serializes e.config hr hfits
  have hcomponents : ∀ {items : List Datum}, Datum.nestingAll items < levels + 1 →
      ∀ d ∈ items, Serializes e.schema next d := by
    intro items hitems d hmem link
    have := Datum.nesting_lt_of_mem hmem
    exact ih d (by omega)
  cases hfits with
  | struct h each =>
    obtain rfl := Schema.eq_of_resolve hr h
    exact struct_serializes hc hr each (hcomponents hd)
  | bare h lacks =>
    obtain ⟨name, variants, hideTag, hr', hvariant⟩ := variant?_eq_some h
    obtain rfl := Schema.eq_of_resolve hr hr'
    exact bare_serializes hc hr h hvariant lacks
  | variant h declares fits written =>
    obtain ⟨name, variants, hideTag, hr', hvariant⟩ := variant?_eq_some h
    obtain rfl := Schema.eq_of_resolve hr hr'
    exact variant_serializes hc hr h hvariant declares fits written
      (ih _ (Nat.lt_of_succ_lt_succ hd))
  | absent h =>
    obtain rfl := Schema.eq_of_resolve hr h
    exact written_emit_yields_iff.mpr rfl
  | present h fits written =>
    obtain rfl := Schema.eq_of_resolve hr h
    exact present_serializes hc hr fits written (ih _ (Nat.lt_of_succ_lt_succ hd))
  | tuple h each =>
    obtain rfl := Schema.eq_of_resolve hr h
    exact tuple_serializes hc hr each (hcomponents hd)
  | array h size all =>
    obtain rfl := Schema.eq_of_resolve hr h
    exact array_serializes hc hr size all (hcomponents hd)
  | vec h size all =>
    obtain rfl := Schema.eq_of_resolve hr h
    exact vec_serializes hc hr size all (hcomponents hd)
  | map h hkey isKey size distinct keys values =>
    obtain rfl := Schema.eq_of_resolve hr h
    rw [Datum.nesting] at hd
    refine map_serializes hc hr hkey isKey size
      (fun entry hmem => ⟨keys entry hmem, values entry hmem⟩) fun entry hmem => ?_
    obtain ⟨hk, hv⟩ := Datum.nesting_lt_of_mem_entries hmem
    exact ⟨ih _ (by omega), ih _ (by omega)⟩
  | integer h | byteArray h | byteVec h | single h | double h | text h | bool h | unit h =>
    exact absurd ⟨_, Schema.eq_of_resolve hr h⟩ hprimitive

/-- Data that are no deeper than the walk are written as the serializer has them. -/
theorem visit_serializes (e : Encoder) (levels : Nat) {d : Datum} (hd : d.nesting < levels) :
    Serializes e.schema (visit e levels) d := by
  induction levels generalizing d with
  | zero => cases hd
  | succ levels ih => exact step_serializes (fun d hd => ih hd) hd

end Encode

namespace Encoder

/-! ## Whole documents -/

theorem encodeWithin_json {e : Encoder} {index levels : Nat} {w : Datum}
    (hc : e.schema.Complete (.byIndex index)) (hfits : w.Fits e.schema (.byIndex index))
    (hlevels : w.nesting < levels) :
    e.encodeWithin levels (.int index) (w.json e.schema (.byIndex index)) =
      .ok (w.borsh e.schema (.byIndex index)) := by
  obtain ⟨type, hr⟩ := hc.described.resolves
  have hwritten := Encode.visit_serializes e levels hlevels hc hfits
  rw [Encode.follow_of_resolve hr] at hwritten
  rw [encodeWithin_int, Schema.resolve_byIndex_iff.mp hr]
  exact Output.result_eq_ok_iff_yields.mpr hwritten

/-- Against a schema whose reachable links all lead to types, and whose reachable structs and enums
have rows of distinct names, one for each field or variant, the plain document of every typed value
no deeper than the limit is accepted, and its bytes are those of the textbook. -/
theorem encode_json {e : Encoder} {index : Nat} {w : Datum}
    (hc : e.schema.Complete (.byIndex index)) (hfits : w.Fits e.schema (.byIndex index))
    (hdepth : w.nesting ≤ e.config.maxDepth) :
    e.encode (.int index) (w.json e.schema (.byIndex index)) =
        .ok (w.borsh e.schema (.byIndex index)) ∧
      ∀ stack, w.nesting < stack.levels →
        e.run stack (.int index) (w.json e.schema (.byIndex index)) =
          .ok (w.borsh e.schema (.byIndex index)) := by
  have hlevels := Nat.lt_succ_of_le hdepth
  exact ⟨encodeWithin_json hc hfits hlevels,
    fun stack hroom => encodeWithin_json hc hfits (Nat.lt_min.mpr ⟨hlevels, hroom⟩)⟩

end Encoder

/-- Trees with a rate at every node. -/
def Schema.rates : Schema :=
  build
    [.struct "Node" [⟨"Kind", .byIndex 1, false, []⟩, ⟨"Rate", .immediate .float32, false, []⟩]
        none false,
      .enumeration "Kind" [⟨"Leaf", 3, none, none⟩, ⟨"Fork", 1, none, some (.byIndex 2)⟩] false,
      .vec (.byIndex 0)]
    [0] [⟨"Node", ["kind", "rate"]⟩, ⟨"Kind", ["leaf", "fork"]⟩, ⟨"", []⟩] none [] []

theorem Schema.rates_complete : rates.Complete (.byIndex 0) := by
  apply Complete.of_closed [.byIndex 0, .byIndex 1, .byIndex 2, .immediate .float32]
  · intro link h
    simp only [List.mem_cons, List.not_mem_nil, or_false] at h
    rcases h with rfl | rfl | rfl | rfl
    · refine ⟨⟨_, rfl⟩, fun hr hcount => ⟨_, rfl, by decide, ?_⟩⟩
      obtain rfl := Except.ok.inj hr
      exact Option.some.inj hcount
    · refine ⟨⟨_, rfl⟩, fun hr hcount => ⟨_, rfl, by decide, ?_⟩⟩
      obtain rfl := Except.ok.inj hr
      exact Option.some.inj hcount
    · refine ⟨⟨_, rfl⟩, fun hr hcount => ?_⟩
      obtain rfl := Except.ok.inj hr
      cases hcount
    · refine ⟨⟨_, rfl⟩, fun hr hcount => ?_⟩
      obtain rfl := Except.ok.inj hr
      cases hcount
  · intro link h type hr
    simp only [List.mem_cons, List.not_mem_nil, or_false] at h
    rcases h with rfl | rfl | rfl | rfl
    all_goals
      obtain rfl := Except.ok.inj hr
      decide
  · exact List.mem_cons_self

/-- A fork of one leaf. -/
def Datum.forkOfLeaf : Datum :=
  .struct [.variant 1 (.list [.struct [.bare 0, .single 0x3F800000#32]]), .single 0xBF000000#32]

theorem Datum.forkOfLeaf_fits : forkOfLeaf.Fits .rates (.byIndex 0) := by
  have hleaf : Fits .rates (.byIndex 0) (.struct [.bare 0, .single 0x3F800000#32]) :=
    .struct rfl (.cons (.bare rfl rfl) (.cons (.single rfl rfl) .nil))
  have hfork : Fits .rates (.byIndex 1)
      (.variant 1 (.list [.struct [.bare 0, .single 0x3F800000#32]])) := by
    refine .variant rfl rfl (.vec rfl (by decide) ?_) nofun
    intro d hd
    rw [List.mem_singleton.mp hd]
    exact hleaf
  exact .struct rfl (.cons hfork (.cons (.single rfl rfl) .nil))

theorem Encoder.encode_forkOfLeaf :
    encode ⟨.rates, .default⟩ (.int 0) (Datum.forkOfLeaf.json .rates (.byIndex 0)) =
      .ok [1, 1, 0, 0, 0, 3, 0, 0, 128, 63, 0, 0, 0, 191] :=
  (encode_json (e := ⟨.rates, .default⟩) Schema.rates_complete Datum.forkOfLeaf_fits (by decide)).1

end BorshWire
