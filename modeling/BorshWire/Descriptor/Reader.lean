import BorshWire.Descriptor.Scalar
import BorshWire.Schema.Basic
import BorshWire.Value.Sequence
import BorshWire.Value.Spelling

/-!
# Reading a descriptor

A descriptor writes a constructor as a map of one entry, from its tag to its payload, or as the
bare tag if the payload is empty. The fields of a payload are checked in a fixed order, unknown
ones are ignored, and every fault is reported under the path that leads to it.
-/

namespace BorshWire

namespace Descriptor

/-- The fields of a payload, by name. -/
abbrev Fields := List (Key × Value)

/-- The fields of a mapping. -/
def fields? (v : Value) : Option Fields := v.mapping?.map (·.entries)

/-- A field that has to be there. -/
def required {α : Type} (name : Text) (check : Value → Checked α) (fields : Fields) : Checked α :=
  match Value.entry? name fields with
  | some v => (check v).under (.member name)
  | none => (Checked.complain .missing).under (.member name)

/-- A field that has a default. -/
def defaulted {α : Type} (name : Text) (default : α) (check : Value → Checked α)
    (fields : Fields) : Checked α :=
  match Value.entry? name fields with
  | some v => (check v).under (.member name)
  | none => .sound default

/-- A part that is a map of fields, or else an instance of the named model. -/
def model {α : Type} (name : Text) (check : Fields → Checked α) (v : Value) : Checked α :=
  match fields? v with
  | some fields => check fields
  | none => .complain (.notModel name)

/-! ## Tags -/

/-- The tag of a constructor and its payload. -/
def tagged? : Value → Option (Key × Value)
  | .text t => some (.text t, .null)
  | .map [(.null, _)] => none
  | .map [(tag, payload)] => some (tag, payload)
  | _ => none

/-- One constructor among others, by its tag. -/
structure Constructor (α : Type) where
  tag : Text
  check : Value → Checked α

/-- Checks a constructor by its tag; what is wrong with the payload is found under the tag. -/
def oneOf {α : Type} (constructors : List (Constructor α)) (v : Value) : Checked α :=
  match tagged? v with
  | none => .complain .noTag
  | some (tag, payload) =>
    let unknown : Complaint := .unknownTag tag.plain.lossy (constructors.map (·.tag))
    match tag with
    | .text name =>
      match constructors.find? fun c => c.tag = name with
      | some c => (c.check payload).under (.member name)
      | none => .complain unknown
    | _ => .complain unknown

/-- A constructor whose payload is a map of fields; an empty payload may be null. -/
def constructor {α : Type} (tag : String) (check : Fields → Checked α) : Constructor α where
  tag := tag
  check
    | .null => check []
    | v => model (Text.ofString (tag ++ "Type")) check v

/-- A constructor without fields. -/
def bare {α : Type} (tag : String) (a : α) : Constructor α := constructor tag fun _ => .sound a

/-! ## Displays -/

/-- The names of the byte forms. -/
inductive ByteMode where
  | hex
  | decimal
  | checksummed (variant : Bech32Variant)

/-- The name of a byte form. -/
def ByteMode.name : ByteMode → Text
  | hex => "Hex"
  | decimal => "Decimal"
  | checksummed variant => variant.name

/-- The byte forms in order. -/
def ByteMode.all : List ByteMode := [hex, decimal, checksummed .bech32, checksummed .bech32m]

/-- The name of the field that holds a human-readable part. -/
def hrpName : Text := "prefix"

/-- The display of a form and a human-readable part, which a checksummed form has to have. -/
def byteDisplayOf (mode : ByteMode) (hrp : Option Text) : Checked ByteDisplay :=
  match mode with
  | .hex => .sound (.hex hrp)
  | .decimal => .sound (.decimal hrp)
  | .checksummed variant =>
    let hrp := hrp.getD []
    if h : hrp ≠ [] then .sound (.checksummed variant hrp h)
    else .complain (.refused (Text.concat [variant.name, " display requires a non-empty prefix"]))

/-- The fields of a byte display. -/
def byteDisplayFields (fields : Fields) : Checked ByteDisplay :=
  Checked.andThen (fun p => byteDisplayOf p.1 p.2)
    (Prod.mk <$> required "mode" (amongEncoded ByteMode.name ByteMode.all) fields
      <*> defaulted hrpName none (optional text) fields)

/-- The form whose only field is given by the payload of its tag. -/
def checksummedPayload (variant : Bech32Variant) (payload : Value) : Checked ByteDisplay :=
  let given := match payload with
    | .map entries => Value.entry? hrpName entries
    | _ => none
  match given with
  | some hrp => byteDisplayFields [(.text "mode", .text variant.name), (.text hrpName, hrp)]
  | none => .complain (.refused (Text.concat [variant.name, " display requires a prefix"]))

/-- A byte display: a bare mode, a checksummed form with its payload, or a map of fields. -/
def byteDisplay (v : Value) : Checked ByteDisplay :=
  match v with
  | .text mode => byteDisplayFields [(.text "mode", .text mode)]
  | .map [(.text tag, payload)] =>
    match [Bech32Variant.bech32, .bech32m].find? fun variant => variant.name = tag with
    | some variant => checksummedPayload variant payload
    | none => model "ByteDisplay" byteDisplayFields v
  | _ => model "ByteDisplay" byteDisplayFields v

/-- The fields of an integer display. -/
def integerDisplayFields (fields : Fields) : Checked IntegerDisplay :=
  IntegerDisplay.mk
    <$> required "mode" (among IntegerMode.name [.hex, .decimal, .fixedPoint]) fields
    <*> defaulted "decimals" none (optional integer) fields
    <*> defaulted "field_index" none (optional integer) fields
    <*> defaulted "byte_offset" none (optional integer) fields

/-- The fields that the payload of a fixed point display stands for. -/
def fixedPointFields? : Value → Option Fields
  | .map entries =>
    match Value.entry? "Decimals" entries, Value.entry? "FromSiblingField" entries with
    | some decimals, _ => some [(.text "mode", .text "FixedPoint"), (.text "decimals", decimals)]
    | none, some (.map sibling) =>
      some [(.text "mode", .text "FixedPoint"),
        (.text "field_index", (Value.entry? "field_index" sibling).getD .null),
        (.text "byte_offset", (Value.entry? "byte_offset" sibling).getD .null)]
    | _, _ => none
  | _ => none

/-- An integer display: a bare mode, a fixed point with its payload, or a map of fields. -/
def integerDisplay (v : Value) : Checked IntegerDisplay :=
  let other := model "IntegerDisplay" integerDisplayFields v
  match v with
  | .text mode => integerDisplayFields [(.text "mode", .text mode)]
  | .map [(.text tag, payload)] =>
    if tag = "FixedPoint" then
      match fixedPointFields? payload with
      | some fields => integerDisplayFields fields
      | none =>
        .complain (.refused "FixedPoint display must declare Decimals or FromSiblingField")
    else other
  | _ => other

/-! ## Primitives and links -/

/-- A length, which may be called `len` or `length`; the first name is the one asked for. -/
def length (fields : Fields) : Checked Nat :=
  match Value.entry? "len" fields, Value.entry? "length" fields with
  | none, some v => (natural v).under (.member "length")
  | _, _ => required "len" natural fields

/-- An integer type, written as the list of its kind and its display or as a map of both. -/
def integerType : Constructor Primitive where
  tag := "Integer"
  check v :=
    let check (fields : Fields) : Checked Primitive :=
      Primitive.integer <$> required "kind" (amongEncoded IntKind.name IntKind.all) fields
        <*> required "display" integerDisplay fields
    let zipped (items : List Value) : Fields :=
      ["kind", "display"].zipWith (fun (name : String) v => (.text name, v)) items
    match v with
    | .null => check []
    | .list items => check (zipped items)
    | .tuple items => check (zipped items)
    | v => model "IntegerType" check v

/-- A byte array type. -/
def byteArrayType : Constructor Primitive :=
  constructor "ByteArray" fun fields =>
    Primitive.byteArray <$> length fields <*> required "display" byteDisplay fields

/-- A byte vector type. -/
def byteVecType : Constructor Primitive :=
  constructor "ByteVec" fun fields =>
    Primitive.byteVec <$> required "display" byteDisplay fields

/-- A position without bytes. -/
def skipType : Constructor Primitive :=
  constructor "Skip" fun fields => Primitive.skip <$> length fields

/-- The primitive types in the order of their tags. -/
def primitives : List (Constructor Primitive) :=
  [integerType, byteArrayType, byteVecType, bare "Float32" .float32, bare "Float64" .float64,
    bare "String" .string, bare "Boolean" .boolean, skipType]

/-- A constructor of links whose payload is its only field. -/
def linkTo {α : Type} (tag field : Text) (check : Value → Checked α) (make : α → Link) :
    Constructor Link where
  tag := tag
  check v := make <$> (check v).under (.member field)

/-- The links in the order of their tags. -/
def links : List (Constructor Link) :=
  [linkTo "ByIndex" "index" natural .byIndex,
    linkTo "Immediate" "primitive" (oneOf primitives) .immediate,
    ⟨"Placeholder", fun
      | .null => .sound .placeholder
      | v => model "Placeholder" (fun _ => .sound .placeholder) v⟩,
    linkTo "IndexedPlaceholder" "index" integer .indexedPlaceholder]

/-- A link. -/
def link : Value → Checked Link := oneOf links

/-! ## Containers -/

/-- A variant of an enum. -/
def variant : Value → Checked Variant :=
  model "EnumVariant" fun fields =>
    Variant.mk <$> required "name" text fields <*> required "discriminant" byte fields
      <*> defaulted "template" none (optional text) fields
      <*> defaulted "value" none (optional link) fields

/-- A field of a struct. -/
def namedField : Value → Checked NamedField :=
  model "NamedField" fun fields =>
    NamedField.mk <$> required "display_name" text fields <*> required "value" link fields
      <*> defaulted "silent" false bool fields <*> defaulted "doc" [] text fields

/-- A field of a tuple. -/
def unnamedField : Value → Checked UnnamedField :=
  model "UnnamedField" fun fields =>
    UnnamedField.mk <$> required "value" link fields
      <*> defaulted "silent" false bool fields <*> defaulted "doc" [] text fields

/-- The constructor of a primitive type as a type of the table. -/
def Constructor.asType (c : Constructor Primitive) : Constructor Ty :=
  ⟨c.tag, fun v => Ty.primitive <$> c.check v⟩

/-- An enum. -/
def enumType : Constructor Ty :=
  constructor "Enum" fun fields =>
    Ty.enumeration <$> required "type_name" text fields
      <*> required "variants" (list variant) fields <*> defaulted "hide_tag" false bool fields

/-- A struct. -/
def structType : Constructor Ty :=
  constructor "Struct" fun fields =>
    Ty.struct <$> required "type_name" text fields <*> required "fields" (list namedField) fields
      <*> defaulted "template" none (optional text) fields
      <*> defaulted "peekable" false bool fields

/-- A tuple. -/
def tupleType : Constructor Ty :=
  constructor "Tuple" fun fields =>
    Ty.tuple <$> required "fields" (list unnamedField) fields
      <*> defaulted "template" none (optional text) fields
      <*> defaulted "peekable" false bool fields

/-- An option. -/
def optionType : Constructor Ty :=
  constructor "Option" fun fields => Ty.option <$> required "value" link fields

/-- An array of a fixed length. -/
def arrayType : Constructor Ty :=
  constructor "Array" fun fields => Ty.array <$> length fields <*> required "value" link fields

/-- A vector. -/
def vecType : Constructor Ty :=
  constructor "Vec" fun fields => Ty.vec <$> required "value" link fields

/-- A map. -/
def mapType : Constructor Ty :=
  constructor "Map" fun fields =>
    Ty.map <$> required "key" link fields <*> required "value" link fields

/-- The types in the order of their tags. -/
def types : List (Constructor Ty) :=
  [enumType, structType, tupleType, optionType, integerType.asType, byteArrayType.asType,
    byteVecType.asType, arrayType, vecType, mapType, skipType.asType,
    (bare "Float32" Primitive.float32).asType, (bare "Float64" Primitive.float64).asType,
    (bare "String" Primitive.string).asType, (bare "Boolean" Primitive.boolean).asType]

/-! ## The whole descriptor -/

/-- A row of names. -/
def nameRow : Value → Checked NameRow :=
  let entry : Value → Checked Text := model "FieldOrVariantMetadata" (required "name" text)
  model "ContainerSerdeMetadata" fun fields =>
    NameRow.mk <$> required "name" text fields
      <*> required "fields_or_variants" (list entry) fields

/-- The chain that a schema is for. -/
def chainData : Value → Checked ChainData :=
  model "ChainData" fun fields =>
    ChainData.mk <$> required "chain_id" integer fields <*> required "chain_name" text fields

/-- The step to the entry of a key; truth values are counted. -/
def Step.ofKey : Key → Step
  | .bool b => .position b.toNat
  | key => .member key.plain

/-- The entries of a template, all of whose keys are texts. -/
def templateEntries : List (Key × Value) → Checked (List (Text × Value))
  | [] => .sound []
  | (key, v) :: rest =>
    let name := ((text key.toValue).under (.member "[key]")).under (Step.ofKey key)
    List.cons <$> ((·, v) <$> name) <*> templateEntries rest

/-- Puts an entry into a template: a name that is there already keeps its place and takes the new
value. -/
def insertNamed (entry : Text × Value) : List (Text × Value) → List (Text × Value)
  | [] => [entry]
  | (name, v) :: rest =>
    if name = entry.1 then entry :: rest else (name, v) :: insertNamed entry rest

/-- A template. -/
def template (v : Value) : Checked (List (Text × Value)) :=
  match fields? v with
  | some entries =>
    (fun named => named.foldl (fun t e => insertNamed e t) []) <$> templateEntries entries
  | none => .complain .notObject

/-- The schema of a descriptor. -/
def schema (fields : Fields) : Checked Schema :=
  let build types roots rows chain templates :=
    Schema.build types roots rows chain templates fields
  build <$> required "types" (list (oneOf types)) fields
    <*> required "root_type_indices" (list integer) fields
    <*> required "serde_metadata" (list nameRow) fields
    <*> defaulted "chain_data" none (optional chainData) fields
    <*> defaulted "templates" [] (list template) fields

end Descriptor

end BorshWire
