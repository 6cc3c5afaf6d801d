import BorshWire.Proofs.Descriptor.Writing

/-!
# Schemas as descriptors

How every part of a schema is written: a constructor as a map of one entry from its tag to its
payload, or as the bare tag if it has none, and whatever has a default may be left out where it is the
default. A display that carries more than its tagged form has room for is written by its fields.

`Draft` is a schema before it is written down: without the tables that are drawn up from the names and
without the copy of a descriptor.
-/

namespace BorshWire

open Descriptor (Writing)

/-! ## Displays -/

/-- A byte display: the bare mode, or a checksummed form with its human-readable part. -/
def ByteDisplay.writing : ByteDisplay → Writing
  | hex none => .text "Hex"
  | decimal none => .text "Decimal"
  | checksummed variant hrp _ =>
    .tagged variant.name (.object [⟨"prefix", false, .text hrp⟩] (of_decide_eq_true rfl))
  | hex (some hrp) =>
    .object [⟨"mode", false, .text "Hex"⟩, ⟨"prefix", false, .text hrp⟩] (of_decide_eq_true rfl)
  | decimal (some hrp) =>
    .object [⟨"mode", false, .text "Decimal"⟩, ⟨"prefix", false, .text hrp⟩]
      (of_decide_eq_true rfl)

/-- An integer display: the bare mode, or a fixed point with its decimals or with the field that holds
them. -/
def IntegerDisplay.writing : IntegerDisplay → Writing
  | ⟨.hex, none, none, none⟩ => .text "Hex"
  | ⟨.decimal, none, none, none⟩ => .text "Decimal"
  | ⟨.fixedPoint, some n, none, none⟩ => .tagged "FixedPoint" (.tagged "Decimals" (.integer n))
  | ⟨.fixedPoint, none, index, offset⟩ =>
    .tagged "FixedPoint" (.tagged "FromSiblingField" (.object
      [⟨"field_index", index.isNone, .ofOption .integer index⟩,
        ⟨"byte_offset", offset.isNone, .ofOption .integer offset⟩]
      (of_decide_eq_true rfl)))
  | ⟨mode, decimals, index, offset⟩ =>
    .object
      [⟨"mode", false, .text mode.name⟩, ⟨"decimals", decimals.isNone, .ofOption .integer decimals⟩,
        ⟨"field_index", index.isNone, .ofOption .integer index⟩,
        ⟨"byte_offset", offset.isNone, .ofOption .integer offset⟩]
      (of_decide_eq_true rfl)

/-! ## Types -/

/-- A primitive type. -/
def Primitive.writing : Primitive → Writing
  | integer kind display => .tagged "Integer" (.list [.text kind.name, display.writing])
  | byteArray length display =>
    .tagged "ByteArray" (.object
      [⟨"len", false, .integer length⟩, ⟨"display", false, display.writing⟩]
      (of_decide_eq_true rfl))
  | byteVec display =>
    .tagged "ByteVec" (.object [⟨"display", false, display.writing⟩] (of_decide_eq_true rfl))
  | float32 => .text "Float32"
  | float64 => .text "Float64"
  | string => .text "String"
  | boolean => .text "Boolean"
  | skip length =>
    .tagged "Skip" (.object [⟨"len", false, .integer length⟩] (of_decide_eq_true rfl))

/-- A link. -/
def Link.writing : Link → Writing
  | byIndex index => .tagged "ByIndex" (.integer index)
  | immediate type => .tagged "Immediate" type.writing
  | placeholder => .text "Placeholder"
  | indexedPlaceholder index => .tagged "IndexedPlaceholder" (.integer index)

/-- A variant of an enum. -/
def Variant.writing (v : Variant) : Writing :=
  .object
    [⟨"name", false, .text v.name⟩, ⟨"discriminant", false, .integer v.discriminant.toNat⟩,
      ⟨"template", v.template.isNone, .ofOption .text v.template⟩,
      ⟨"value", v.payload.isNone, .ofOption Link.writing v.payload⟩]
    (of_decide_eq_true rfl)

/-- A field of a struct. -/
def NamedField.writing (f : NamedField) : Writing :=
  .object
    [⟨"display_name", false, .text f.displayName⟩, ⟨"value", false, f.type.writing⟩,
      ⟨"silent", !f.silent, .bool f.silent⟩, ⟨"doc", f.doc.isEmpty, .text f.doc⟩]
    (of_decide_eq_true rfl)

/-- A field of a tuple. -/
def UnnamedField.writing (f : UnnamedField) : Writing :=
  .object
    [⟨"value", false, f.type.writing⟩, ⟨"silent", !f.silent, .bool f.silent⟩,
      ⟨"doc", f.doc.isEmpty, .text f.doc⟩]
    (of_decide_eq_true rfl)

/-- A type of the table. -/
def Ty.writing : Ty → Writing
  | primitive type => type.writing
  | enumeration name variants hideTag =>
    .tagged "Enum" (.object
      [⟨"type_name", false, .text name⟩, ⟨"variants", false, .list (variants.map Variant.writing)⟩,
        ⟨"hide_tag", !hideTag, .bool hideTag⟩]
      (of_decide_eq_true rfl))
  | struct name fields template peekable =>
    .tagged "Struct" (.object
      [⟨"type_name", false, .text name⟩, ⟨"fields", false, .list (fields.map NamedField.writing)⟩,
        ⟨"template", template.isNone, .ofOption .text template⟩,
        ⟨"peekable", !peekable, .bool peekable⟩]
      (of_decide_eq_true rfl))
  | tuple fields template peekable =>
    .tagged "Tuple" (.object
      [⟨"fields", false, .list (fields.map UnnamedField.writing)⟩,
        ⟨"template", template.isNone, .ofOption .text template⟩,
        ⟨"peekable", !peekable, .bool peekable⟩]
      (of_decide_eq_true rfl))
  | option item =>
    .tagged "Option" (.object [⟨"value", false, item.writing⟩] (of_decide_eq_true rfl))
  | array length item =>
    .tagged "Array" (.object [⟨"len", false, .integer length⟩, ⟨"value", false, item.writing⟩]
      (of_decide_eq_true rfl))
  | vec item => .tagged "Vec" (.object [⟨"value", false, item.writing⟩] (of_decide_eq_true rfl))
  | map key value =>
    .tagged "Map" (.object [⟨"key", false, key.writing⟩, ⟨"value", false, value.writing⟩]
      (of_decide_eq_true rfl))

/-! ## Schemas -/

/-- A row of names, each in an object of its own. -/
def NameRow.writing (r : NameRow) : Writing :=
  .object
    [⟨"name", false, .text r.name⟩,
      ⟨"fields_or_variants", false, .list (r.members.map fun name =>
        .object [⟨"name", false, .text name⟩] (of_decide_eq_true rfl))⟩]
    (of_decide_eq_true rfl)

/-- The chain that a schema describes. -/
def ChainData.writing (c : ChainData) : Writing :=
  .object [⟨"chain_id", false, .integer c.id⟩, ⟨"chain_name", false, .text c.name⟩]
    (of_decide_eq_true rfl)

/-- A template: entries with distinct names and any values but views of bytes. -/
structure Template where
  entries : List (Text × Value)
  distinct : (entries.map Prod.fst).Nodup
  viewless : ∀ entry ∈ entries, entry.2.holdsView = false

namespace Template

/-- The entries as those of a map. -/
def fields (t : Template) : List (Key × Value) := t.entries.map fun entry => (.text entry.1, entry.2)

theorem holdsView_fields (t : Template) : (Value.map t.fields).holdsView = false := by
  have hentries : ∀ entries : List (Text × Value),
      (∀ entry ∈ entries, entry.2.holdsView = false) →
      Value.entriesHoldView (entries.map fun entry => (Key.text entry.1, entry.2)) = false := by
    intro entries h
    induction entries with
    | nil => rfl
    | cons entry rest ih =>
      rw [List.forall_mem_cons] at h
      rw [List.map_cons, Value.entriesHoldView, h.1, ih h.2, Bool.or_false]
  exact hentries t.entries t.viewless

/-- A template is carried as it is. -/
def writing (t : Template) : Writing := .only (.map t.fields) t.holdsView_fields

end Template

/-- What a descriptor writes down. -/
structure Draft where
  types : List Ty
  roots : List Int
  rows : List NameRow
  chain : Option ChainData
  templates : List Template

namespace Draft

/-- A descriptor. -/
def writing (d : Draft) : Writing :=
  .object
    [⟨"types", false, .list (d.types.map Ty.writing)⟩,
      ⟨"root_type_indices", false, .list (d.roots.map Writing.integer)⟩,
      ⟨"serde_metadata", false, .list (d.rows.map NameRow.writing)⟩,
      ⟨"chain_data", d.chain.isNone, .ofOption ChainData.writing d.chain⟩,
      ⟨"templates", d.templates.isEmpty, .list (d.templates.map Template.writing)⟩]
    (of_decide_eq_true rfl)

/-- The schema of a draft that was written as these fields. -/
def schema (d : Draft) (source : List (Key × Value)) : Schema :=
  .build d.types d.roots d.rows d.chain (d.templates.map Template.entries) source

end Draft

end BorshWire
