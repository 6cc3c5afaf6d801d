import BorshWire.Proofs.Descriptor.Written

/-!
# What is written down is loaded again

`Schema.ofValue_of_admits`: every way to write a schema down is loaded as that schema. For each kind
of part there is one lemma which says that its check reads all its writings, from the scalars up to
the whole descriptor. What carries them is that a tag finds the constructor that it was written by,
and that no writing of a link or a text is one of nothing.
-/

namespace BorshWire

namespace Descriptor

open Writing (IsRead)

/-! ## Scalars -/

theorem text_isRead (t : Text) : (Writing.text t).IsRead text t := .only rfl

theorem integer_isRead (n : Int) : (Writing.integer n).IsRead integer n := .only rfl

theorem bool_isRead (b : Bool) : (Writing.bool b).IsRead bool b := .only rfl

theorem natural_isRead (n : Nat) : (Writing.integer n).IsRead natural n := by
  have hnonneg : ¬(n : Int) < 0 := Int.not_lt.mpr (Int.natCast_nonneg n)
  refine .only ?_
  show (if (n : Int) < 0 then Checked.complain (.belowMinimum 0)
    else Checked.sound (n : Int).toNat) = _
  rw [if_neg hnonneg, Int.toNat_natCast]

theorem byte_isRead (b : UInt8) : (Writing.integer b.toNat).IsRead byte b := by
  have hle : ¬255 < b.toNat := Nat.not_lt.mpr (Nat.le_of_lt_succ b.toNat_lt)
  refine .only ?_
  rw [byte, (natural_isRead b.toNat) _ rfl]
  show (if 255 < b.toNat then _ else _) = _
  rw [if_neg hle, UInt8.ofNat_toNat]

theorem integerOption_isRead (n? : Option Int) :
    (Writing.ofOption .integer n?).IsRead (optional integer) n? :=
  .ofOption integer_isRead nofun n?

/-! ## Displays -/

theorem eq_of_entry?_singleton {tag name : Text} {payload v : Value}
    (h : Value.entry? name [(.text tag, payload)] = some v) : name = tag := by
  rw [Value.entry?] at h
  split at h
  · rename_i heq
    exact heq.symm
  · cases h

theorem byteDisplay_map {entries : Fields} {v : Value}
    (h : Value.entry? "mode" entries = some v) :
    byteDisplay (.map entries) = byteDisplayFields entries := by
  match entries with
  | [] => cases h
  | [(.text tag, _)] =>
    obtain rfl := eq_of_entry?_singleton h
    rfl
  | [(.null, _)] | [(.bool _, _)] | [(.int _, _)] | [(.float _, _)] | [(.bytes _, _)]
  | [(.tuple _, _)] | [(.range _, _)] => rfl
  | (key, _) :: _ :: _ => cases key <;> rfl

theorem byteDisplayFields_isRead (mode : ByteMode) {hrp : Text} {display : ByteDisplay}
    (distinct : ([("mode" : Text), "prefix"]).Nodup)
    (hmode : amongEncoded ByteMode.name ByteMode.all (.text mode.name) = .sound mode)
    (hdisplay : byteDisplayOf mode (some hrp) = .sound display) :
    (Writing.object [⟨"mode", false, .text mode.name⟩, ⟨"prefix", false, .text hrp⟩]
      distinct).IsRead byteDisplay display := by
  intro v hv
  obtain ⟨entries, rfl, hmember, hprefix, _⟩ := Writing.admits_object_iff.mp hv
  obtain ⟨_, hentry, _⟩ := hmember.exists_entry
  have hread : required "mode" (amongEncoded ByteMode.name ByteMode.all) entries = .sound mode :=
    IsRead.required (.only hmode) hmember
  have hread' : defaulted hrpName none (optional text) entries = .sound (some hrp) :=
    ((text_isRead hrp).some nofun).defaulted hprefix nofun
  rw [byteDisplay_map hentry, byteDisplayFields, hread, hread']
  exact hdisplay

theorem byteDisplay_isRead (display : ByteDisplay) :
    display.writing.IsRead byteDisplay display := by
  match display with
  | .hex none => exact .only rfl
  | .decimal none => exact .only rfl
  | .checksummed variant hrp nonempty =>
    rintro _ ⟨_, rfl, hv⟩
    obtain ⟨entries, rfl, hmember, _⟩ := Writing.admits_object_iff.mp hv
    obtain ⟨_, hentry, rfl⟩ := hmember.exists_entry
    have hpayload : byteDisplay (.map [(.text variant.name, .map entries)]) =
        checksummedPayload variant (.map entries) := by
      cases variant <;> rfl
    have hfields : byteDisplayFields
          [(.text "mode", .text variant.name), (.text hrpName, .text hrp)] =
        byteDisplayOf (.checksummed variant) (some hrp) := by
      cases variant <;> rfl
    rw [hpayload, checksummedPayload, hrpName, hentry]
    exact hfields.trans (dif_pos nonempty)
  | .hex (some hrp) => exact byteDisplayFields_isRead .hex (of_decide_eq_true rfl) rfl rfl
  | .decimal (some hrp) => exact byteDisplayFields_isRead .decimal (of_decide_eq_true rfl) rfl rfl

theorem integerDisplay_map {entries : Fields} {v : Value}
    (h : Value.entry? "mode" entries = some v) :
    integerDisplay (.map entries) = integerDisplayFields entries := by
  match entries with
  | [] => cases h
  | [(.text tag, _)] =>
    obtain rfl := eq_of_entry?_singleton h
    rfl
  | [(.null, _)] | [(.bool _, _)] | [(.int _, _)] | [(.float _, _)] | [(.bytes _, _)]
  | [(.tuple _, _)] | [(.range _, _)] => rfl
  | (key, _) :: _ :: _ => cases key <;> rfl

section

variable {index? : Option Int} {name : Text} {entries : Fields}
  (hm : Member.StandsIn ⟨name, index?.isNone, .ofOption .integer index?⟩ entries)

include hm

theorem defaulted_optional_integer :
    defaulted name none (optional integer) entries = .sound index? :=
  IsRead.defaulted_ofOption integer_isRead nofun hm

theorem optional_integer_getD :
    optional integer ((Value.entry? name entries).getD .null) = .sound index? := by
  rcases Member.standsIn_iff.mp hm with ⟨v, hv, hadmits⟩ | ⟨hnone, homissible⟩
  · rw [hv]
    exact integerOption_isRead index? v hadmits
  · rw [hnone, Option.isNone_iff_eq_none.mp homissible]
    rfl

end

theorem integerDisplayFields_isRead (mode : IntegerMode) (decimals index offset : Option Int)
    (distinct : ([("mode" : Text), "decimals", "field_index", "byte_offset"]).Nodup) :
    (Writing.object
      [⟨"mode", false, .text mode.name⟩, ⟨"decimals", decimals.isNone, .ofOption .integer decimals⟩,
        ⟨"field_index", index.isNone, .ofOption .integer index⟩,
        ⟨"byte_offset", offset.isNone, .ofOption .integer offset⟩]
      distinct).IsRead integerDisplay ⟨mode, decimals, index, offset⟩ := by
  intro v hv
  obtain ⟨entries, rfl, hmode, hdecimals, hindex, hoffset, _⟩ := Writing.admits_object_iff.mp hv
  obtain ⟨_, hentry, _⟩ := hmode.exists_entry
  have hread : required "mode" (among IntegerMode.name [.hex, .decimal, .fixedPoint]) entries =
      .sound mode := by
    refine IsRead.required (.only ?_) hmode
    cases mode <;> rfl
  rw [integerDisplay_map hentry, integerDisplayFields, hread,
    defaulted_optional_integer hdecimals, defaulted_optional_integer hindex,
    defaulted_optional_integer hoffset]
  rfl

theorem siblingDisplay_isRead (index offset : Option Int)
    (distinct : ([("field_index" : Text), "byte_offset"]).Nodup) :
    (Writing.tagged "FixedPoint" (.tagged "FromSiblingField" (.object
      [⟨"field_index", index.isNone, .ofOption .integer index⟩,
        ⟨"byte_offset", offset.isNone, .ofOption .integer offset⟩]
      distinct))).IsRead integerDisplay ⟨.fixedPoint, none, index, offset⟩ := by
  rintro _ ⟨_, rfl, _, rfl, hv⟩
  obtain ⟨entries, rfl, hindex, hoffset, _⟩ := Writing.admits_object_iff.mp hv
  have hfields : integerDisplay
      (.map [(.text "FixedPoint", .map [(.text "FromSiblingField", .map entries)])]) =
        (IntegerDisplay.mk <$> .sound .fixedPoint <*> .sound none
          <*> (optional integer ((Value.entry? "field_index" entries).getD .null)).under
            (.member "field_index")
          <*> (optional integer ((Value.entry? "byte_offset" entries).getD .null)).under
            (.member "byte_offset")) := rfl
  rw [hfields, optional_integer_getD hindex, optional_integer_getD hoffset]
  rfl

theorem integerDisplay_isRead (display : IntegerDisplay) :
    display.writing.IsRead integerDisplay display := by
  unfold IntegerDisplay.writing
  split
  · exact .only rfl
  · exact .only rfl
  · rintro _ ⟨_, rfl, _, rfl, rfl⟩
    rfl
  · exact siblingDisplay_isRead _ _ (of_decide_eq_true rfl)
  · exact integerDisplayFields_isRead _ _ _ _ (of_decide_eq_true rfl)

/-! ## Primitive types -/

theorem length_eq {n : Nat} {entries : Fields}
    (hm : Member.StandsIn ⟨"len", false, .integer n⟩ entries) : length entries = .sound n := by
  obtain ⟨v, hentry, _⟩ := hm.exists_entry
  unfold length
  split
  · rename_i hnone _
    rw [hentry] at hnone
    cases hnone
  · exact (natural_isRead n).required hm

theorem integerType_isRead (kind : IntKind) (display : IntegerDisplay) :
    (Writing.list [.text kind.name, display.writing]).IsRead integerType.check
      (.integer kind display) := by
  rintro _ ⟨_, rfl, hitems⟩
  obtain ⟨_, _, rfl, hrest, rfl⟩ := List.forall₂_cons_left_iff.mp hitems
  obtain ⟨v, _, hv, hnil, rfl⟩ := List.forall₂_cons_left_iff.mp hrest
  rw [List.forall₂_nil_left_iff] at hnil
  have hkind : amongEncoded IntKind.name IntKind.all (.text kind.name) = .sound kind := by
    obtain ⟨signed, width⟩ := kind
    cases signed <;> cases width <;> rfl
  have hfields : integerType.check (.list [.text kind.name, v]) =
      (Primitive.integer
        <$> (amongEncoded IntKind.name IntKind.all (.text kind.name)).under (.member "kind")
        <*> (integerDisplay v).under (.member "display")) := rfl
  subst hnil
  rw [hfields, hkind, integerDisplay_isRead display v hv]
  rfl

/-- Every primitive type is read by the constructor of its tag. -/
theorem primitive_isRead (type : Primitive) : type.writing.IsRead (oneOf primitives) type := by
  cases type with
  | integer kind display => exact (integerType_isRead kind display).oneOf rfl
  | byteArray length display =>
    refine IsRead.oneOf (c := byteArrayType) rfl (.constructor ?_)
    rintro entries ⟨hlength, hdisplay, _⟩
    rw [length_eq hlength, (byteDisplay_isRead display).required hdisplay]
    rfl
  | byteVec display =>
    refine IsRead.oneOf (c := byteVecType) rfl (.constructor fun entries ⟨hdisplay, _⟩ => ?_)
    rw [(byteDisplay_isRead display).required hdisplay]
    rfl
  | float32 => exact .oneOf_bare (c := bare "Float32" .float32) rfl rfl
  | float64 => exact .oneOf_bare (c := bare "Float64" .float64) rfl rfl
  | string => exact .oneOf_bare (c := bare "String" .string) rfl rfl
  | boolean => exact .oneOf_bare (c := bare "Boolean" .boolean) rfl rfl
  | skip length =>
    refine IsRead.oneOf (c := skipType) rfl (.constructor fun entries ⟨hlength, _⟩ => ?_)
    rw [length_eq hlength]
    rfl

/-! ## Links -/

theorem linkTo_isRead {α : Type} {tag field : Text} {check : Value → Checked α} {make : α → Link}
    {w : Writing} {a : α} (h : w.IsRead check a) :
    w.IsRead (linkTo tag field check make).check (make a) := by
  intro v hv
  show make <$> (check v).under (.member field) = _
  rw [h v hv]
  rfl

theorem link_isRead (link : Link) : link.writing.IsRead Descriptor.link link := by
  cases link with
  | byIndex index => exact (linkTo_isRead (natural_isRead index)).oneOf rfl
  | immediate type => exact (linkTo_isRead (primitive_isRead type)).oneOf rfl
  | placeholder => exact .only rfl
  | indexedPlaceholder index => exact (linkTo_isRead (integer_isRead index)).oneOf rfl

theorem link_not_admits_null (link : Link) : ¬link.writing.Admits .null := by
  cases link <;> rintro ⟨_, h, _⟩ <;> cases h

/-! ## Containers -/

section

variable {entries : Fields}

theorem template_eq {template : Option Text}
    (hm : Member.StandsIn ⟨"template", template.isNone, .ofOption .text template⟩ entries) :
    defaulted "template" none (optional text) entries = .sound template :=
  IsRead.defaulted_ofOption text_isRead nofun hm

theorem flag_eq {name : Text} {flag : Bool}
    (hm : Member.StandsIn ⟨name, !flag, .bool flag⟩ entries) :
    defaulted name false bool entries = .sound flag :=
  (bool_isRead flag).defaulted hm fun h => by simpa using h

theorem doc_eq {doc : Text} (hm : Member.StandsIn ⟨"doc", doc.isEmpty, .text doc⟩ entries) :
    defaulted "doc" [] text entries = .sound doc :=
  (text_isRead doc).defaulted hm fun h => (List.isEmpty_iff.mp h).symm

theorem text_eq {name t : Text} (hm : Member.StandsIn ⟨name, false, .text t⟩ entries) :
    required name text entries = .sound t := (text_isRead t).required hm

theorem link_eq {name : Text} {link : Link}
    (hm : Member.StandsIn ⟨name, false, link.writing⟩ entries) :
    required name Descriptor.link entries = .sound link := (link_isRead link).required hm

end

theorem variant_isRead (v : Variant) : v.writing.IsRead variant v := by
  refine .model fun entries ⟨hname, hdiscriminant, htemplate, hvalue, _⟩ => ?_
  have hpayload : defaulted "value" none (optional link) entries = .sound v.payload :=
    IsRead.defaulted_ofOption link_isRead link_not_admits_null hvalue
  rw [text_eq hname, (byte_isRead v.discriminant).required hdiscriminant, template_eq htemplate,
    hpayload]
  rfl

theorem namedField_isRead (f : NamedField) : f.writing.IsRead namedField f := by
  refine .model fun entries ⟨hname, hvalue, hsilent, hdoc, _⟩ => ?_
  rw [text_eq hname, link_eq hvalue, flag_eq hsilent, doc_eq hdoc]
  rfl

theorem unnamedField_isRead (f : UnnamedField) : f.writing.IsRead unnamedField f := by
  refine .model fun entries ⟨hvalue, hsilent, hdoc, _⟩ => ?_
  rw [link_eq hvalue, flag_eq hsilent, doc_eq hdoc]
  rfl

theorem Checked.eq_sound_of_under {α : Type} {x : Checked α} {step : Step} {a : α}
    (h : x.under step = .sound a) : x = .sound a := by
  cases x with
  | sound b => exact h
  | faulty first more => cases h

theorem find?_types_of_mem_primitives {c : Constructor Primitive} (h : c ∈ primitives) :
    types.find? (fun d => d.tag = c.tag) = some c.asType := by
  simp only [primitives, List.mem_cons, List.not_mem_nil, or_false] at h
  rcases h with rfl | rfl | rfl | rfl | rfl | rfl | rfl | rfl <;> rfl

/-- What is read as a primitive is read as a type of the table too. -/
theorem oneOf_types_of_primitives {v : Value} {type : Primitive}
    (h : oneOf primitives v = .sound type) : oneOf types v = .sound (.primitive type) := by
  unfold oneOf at h ⊢
  split at h
  · cases h
  · split at h
    · rename_i name _
      split at h
      · rename_i c hc
        have htag := List.find?_some hc
        obtain rfl : c.tag = name := of_decide_eq_true htag
        have hcheck := Checked.eq_sound_of_under h
        simp only [find?_types_of_mem_primitives (List.mem_of_find?_eq_some hc)]
        show ((Ty.primitive <$> c.check _).under _ : Checked Ty) = _
        rw [hcheck]
        rfl
      · cases h
    · cases h

/-- Every type is read by the constructor of its tag. -/
theorem type_isRead (type : Ty) : type.writing.IsRead (oneOf types) type := by
  cases type with
  | primitive type => exact fun v hv => oneOf_types_of_primitives (primitive_isRead type v hv)
  | enumeration name variants hideTag =>
    refine IsRead.oneOf (c := enumType) rfl (.constructor ?_)
    rintro entries ⟨hname, hvariants, hhide, _⟩
    rw [text_eq hname, (IsRead.list variant_isRead variants).required hvariants, flag_eq hhide]
    rfl
  | struct name fields template peekable =>
    refine IsRead.oneOf (c := structType) rfl (.constructor ?_)
    rintro entries ⟨hname, hfields, htemplate, hpeekable, _⟩
    rw [text_eq hname, (IsRead.list namedField_isRead fields).required hfields,
      template_eq htemplate, flag_eq hpeekable]
    rfl
  | tuple fields template peekable =>
    refine IsRead.oneOf (c := tupleType) rfl (.constructor ?_)
    rintro entries ⟨hfields, htemplate, hpeekable, _⟩
    rw [(IsRead.list unnamedField_isRead fields).required hfields, template_eq htemplate,
      flag_eq hpeekable]
    rfl
  | option item =>
    refine IsRead.oneOf (c := optionType) rfl (.constructor fun entries ⟨hvalue, _⟩ => ?_)
    rw [link_eq hvalue]
    rfl
  | array length item =>
    refine IsRead.oneOf (c := arrayType) rfl (.constructor fun entries ⟨hlength, hvalue, _⟩ => ?_)
    rw [length_eq hlength, link_eq hvalue]
    rfl
  | vec item =>
    refine IsRead.oneOf (c := vecType) rfl (.constructor fun entries ⟨hvalue, _⟩ => ?_)
    rw [link_eq hvalue]
    rfl
  | map key value =>
    refine IsRead.oneOf (c := mapType) rfl (.constructor fun entries ⟨hkey, hvalue, _⟩ => ?_)
    rw [link_eq hkey, link_eq hvalue]
    rfl

/-! ## Whole descriptors -/

theorem nameRow_isRead (r : NameRow) : r.writing.IsRead nameRow r := by
  refine .model fun entries ⟨hname, hmembers, _⟩ => ?_
  have hentry (name : Text) :
      (Writing.object [⟨"name", false, .text name⟩] (of_decide_eq_true rfl)).IsRead
        (model "FieldOrVariantMetadata" (required "name" text)) name :=
    .model fun entries ⟨hname, _⟩ => text_eq hname
  rw [text_eq hname, (IsRead.list hentry r.members).required hmembers]
  rfl

theorem chainData_isRead (c : ChainData) : c.writing.IsRead chainData c := by
  refine .model fun entries ⟨hid, hname, _⟩ => ?_
  rw [(integer_isRead c.id).required hid, text_eq hname]
  rfl

theorem templateEntries_eq (entries : List (Text × Value)) :
    templateEntries (entries.map fun entry => (.text entry.1, entry.2)) = .sound entries := by
  induction entries with
  | nil => rfl
  | cons entry rest ih =>
    rw [List.map_cons, templateEntries, ih]
    rfl

theorem insertNamed_of_not_mem {entry : Text × Value} {entries : List (Text × Value)}
    (h : entry.1 ∉ entries.map Prod.fst) : insertNamed entry entries = entries ++ [entry] := by
  induction entries with
  | nil => rfl
  | cons other rest ih =>
    obtain ⟨name, v⟩ := other
    rw [List.map_cons, List.mem_cons, not_or] at h
    rw [insertNamed, if_neg (Ne.symm h.1), ih h.2]
    rfl

theorem foldl_insertNamed {entries before : List (Text × Value)}
    (h : ((before ++ entries).map Prod.fst).Nodup) :
    entries.foldl (fun t entry => insertNamed entry t) before = before ++ entries := by
  induction entries generalizing before with
  | nil => rw [List.foldl_nil, List.append_nil]
  | cons entry rest ih =>
    have happend : before ++ entry :: rest = before ++ [entry] ++ rest := by simp
    have hnew : entry.1 ∉ before.map Prod.fst := by
      rw [List.map_append, List.nodup_append] at h
      exact fun hmem => h.2.2 _ hmem _ (List.mem_map_of_mem List.mem_cons_self) rfl
    rw [List.foldl_cons, insertNamed_of_not_mem hnew, ih (happend ▸ h), happend]

theorem template_isRead (t : Template) : t.writing.IsRead template t.entries := by
  refine .only ?_
  show (fun named => named.foldl (fun t e => insertNamed e t) []) <$>
    templateEntries (t.entries.map fun entry => (.text entry.1, entry.2)) = _
  have hentries : t.entries.foldl (fun t e => insertNamed e t) [] = [] ++ t.entries :=
    foldl_insertNamed t.distinct
  rw [templateEntries_eq]
  exact congrArg Checked.sound hentries

/-- Every descriptor of a draft is read as the draft. -/
theorem schema_eq (d : Draft) {entries : Fields} (h : d.writing.Admits (.map entries)) :
    schema entries = .sound (d.schema entries) := by
  obtain ⟨_, heq, htypes, hroots, hrows, hchain, htemplates, _⟩ := Writing.admits_object_iff.mp h
  obtain rfl := Value.map.inj heq
  have hchained : defaulted "chain_data" none (optional chainData) entries = .sound d.chain :=
    IsRead.defaulted_ofOption chainData_isRead nofun hchain
  have htemplated : defaulted "templates" [] (list template) entries =
      .sound (d.templates.map Template.entries) :=
    (IsRead.list_map template_isRead d.templates).defaulted htemplates
      fun hnone => by rw [List.isEmpty_iff.mp hnone]; rfl
  unfold schema
  rw [(IsRead.list type_isRead d.types).required htypes,
    (IsRead.list integer_isRead d.roots).required hroots,
    (IsRead.list nameRow_isRead d.rows).required hrows, hchained, htemplated]
  rfl

end Descriptor

namespace Schema

/-- A schema that is written down as a descriptor and loaded is the same schema again: by the plain
descriptor, and by every other one, in which members that are the default are left out and members
of unknown names are added to any object, as long as it holds no view of bytes. The loaded schema
keeps the descriptor itself beside. -/
theorem ofValue_of_admits (d : Draft) :
    (∃ entries, d.writing.plain = .map entries ∧
      ofValue d.writing.plain = .ok (d.schema entries)) ∧
    ∀ entries, d.writing.Admits (.map entries) → (Value.map entries).holdsView = false →
      ofValue (.map entries) = .ok (d.schema entries) := by
  have hload : ∀ entries, d.writing.Admits (.map entries) →
      (Value.map entries).holdsView = false →
      ofValue (.map entries) = .ok (d.schema entries) := by
    intro entries h hview
    unfold ofValue
    simp only [Value.mapping?, Descriptor.schema_eq d h, hview, Bool.false_eq_true, if_false]
  exact ⟨⟨_, rfl, hload _ d.writing.admits_plain d.writing.holdsView_plain⟩, hload⟩

end Schema

/-- Dots and lines of some length. -/
def Draft.strokes : Draft where
  types :=
    [.enumeration "Stroke" [⟨"Dot", 7, none, none⟩, ⟨"Line", 2, none, some (.byIndex 1)⟩] false,
      .tuple [⟨.immediate (.integer ⟨false, .w16⟩ ⟨.fixedPoint, some 2, none, none⟩), false, []⟩]
        none false]
  roots := [0]
  rows := [⟨"Stroke", ["dot", "line"]⟩]
  chain := some ⟨9, "ink"⟩
  templates := []

/-- A descriptor of the strokes without anything that is the default, with unknown members in every
kind of object. -/
def Draft.strokesEntries : List (Key × Value) :=
  [(.text "serde_metadata", .list
      [.map [(.text "kind", .null), (.text "name", .text "Stroke"),
        (.text "fields_or_variants", .list
          [.map [(.text "name", .text "dot")],
            .map [(.text "alias", .text "dash"), (.text "name", .text "line")]])]]),
    (.text "version", .int 3),
    (.text "types", .list
      [.map [(.text "Enum", .map
          [(.text "variants", .list
              [.map [(.text "discriminant", .int 7), (.text "name", .text "Dot")],
                .map [(.text "width", .int 1), (.text "value", .map [(.text "ByIndex", .int 1)]),
                  (.text "name", .text "Line"), (.text "discriminant", .int 2)]]),
            (.text "closed", .bool true), (.text "type_name", .text "Stroke")])],
        .map [(.text "Tuple", .map
          [(.text "fields", .list
              [.map [(.text "unit", .text "cm"),
                (.text "value", .map [(.text "Immediate", .map [(.text "Integer", .list
                  [.text "u16",
                    .map [(.text "FixedPoint", .map [(.text "Decimals", .int 2)])]])])])]]),
            (.text "arity", .int 1)])]]),
    (.text "root_type_indices", .list [.int 0]),
    (.text "chain_data", .map
      [(.text "chain_id", .int 9), (.text "test", .bool true), (.text "chain_name", .text "ink")])]

namespace Draft

open Descriptor.Writing (admits_object admits_tagged admits_list)

theorem dot_admits :
    (Variant.writing ⟨"Dot", 7, none, none⟩).Admits
      (.map [(.text "discriminant", .int 7), (.text "name", .text "Dot")]) := by
  exact admits_object
    ⟨.of_entry rfl rfl, .of_entry rfl rfl, .of_none rfl rfl, .of_none rfl rfl, trivial⟩

theorem line_admits :
    (Variant.writing ⟨"Line", 2, none, some (.byIndex 1)⟩).Admits
      (.map [(.text "width", .int 1), (.text "value", .map [(.text "ByIndex", .int 1)]),
        (.text "name", .text "Line"), (.text "discriminant", .int 2)]) := by
  exact admits_object ⟨.of_entry rfl rfl, .of_entry rfl rfl, .of_none rfl rfl,
    .of_entry rfl (admits_tagged rfl), trivial⟩

theorem length_admits :
    (UnnamedField.writing
        ⟨.immediate (.integer ⟨false, .w16⟩ ⟨.fixedPoint, some 2, none, none⟩), false, []⟩).Admits
      (.map [(.text "unit", .text "cm"),
        (.text "value", .map [(.text "Immediate", .map [(.text "Integer", .list
          [.text "u16", .map [(.text "FixedPoint", .map [(.text "Decimals", .int 2)])]])])])]) := by
  refine admits_object ⟨.of_entry rfl (admits_tagged (admits_tagged (admits_list ?_))),
    .of_none rfl rfl, .of_none rfl rfl, trivial⟩
  exact .cons rfl (.cons (admits_tagged (admits_tagged rfl)) .nil)

theorem strokeNames_admits :
    (NameRow.writing ⟨"Stroke", ["dot", "line"]⟩).Admits
      (.map [(.text "kind", .null), (.text "name", .text "Stroke"),
        (.text "fields_or_variants", .list
          [.map [(.text "name", .text "dot")],
            .map [(.text "alias", .text "dash"), (.text "name", .text "line")]])]) := by
  refine admits_object ⟨.of_entry rfl rfl, .of_entry rfl (admits_list ?_), trivial⟩
  refine .cons ?_ (.cons ?_ .nil)
  all_goals exact admits_object ⟨.of_entry rfl rfl, trivial⟩

theorem strokes_admits : strokes.writing.Admits (.map strokesEntries) := by
  have hchain : (ChainData.writing ⟨9, "ink"⟩).Admits (.map [(.text "chain_id", .int 9),
      (.text "test", .bool true), (.text "chain_name", .text "ink")]) :=
    admits_object ⟨.of_entry rfl rfl, .of_entry rfl rfl, trivial⟩
  refine admits_object ⟨
    .of_entry rfl (admits_list (.cons (admits_tagged ?_) (.cons (admits_tagged ?_) .nil))),
    .of_entry rfl (admits_list (.cons rfl .nil)),
    .of_entry rfl (admits_list (.cons strokeNames_admits .nil)),
    .of_entry rfl hchain, .of_none rfl rfl, trivial⟩
  · exact admits_object ⟨.of_entry rfl rfl,
      .of_entry rfl (admits_list (.cons dot_admits (.cons line_admits .nil))),
      .of_none rfl rfl, trivial⟩
  · exact admits_object ⟨.of_entry rfl (admits_list (.cons length_admits .nil)), .of_none rfl rfl,
      .of_none rfl rfl, trivial⟩

end Draft

theorem Schema.ofValue_strokes :
    Draft.strokes.writing.Admits (.map Draft.strokesEntries) ∧
      (Value.map Draft.strokesEntries).holdsView = false ∧
      ofValue (.map Draft.strokesEntries) = .ok (Draft.strokes.schema Draft.strokesEntries) :=
  ⟨Draft.strokes_admits, rfl, (ofValue_of_admits Draft.strokes).2 _ Draft.strokes_admits rfl⟩

end BorshWire
