import BorshWire.Encode.Walk
import BorshWire.Proofs.Simulation.Output

/-!
# The walk under two relations

`visit_alike`: a walk over one schema and value and a walk over another schema and value are alike
if the links are related by a relation that resolving keeps, and the values by a relation that
every way of reading a value keeps. The relation of links (`Schema.Bisimilar`) never looks at
names for display, and the relation of values (`Value.Simulation`) says once what the encoder can
see of a value.
-/

namespace BorshWire

/-! ## Related types -/

/-- The same primitive type, display hints of integers and lengths of skipped positions aside. -/
inductive Primitive.SameWire : Primitive → Primitive → Prop where
  | integer (kind : IntKind) (d d' : IntegerDisplay) : SameWire (.integer kind d) (.integer kind d')
  | byteArray (length : Nat) (display : ByteDisplay) :
    SameWire (.byteArray length display) (.byteArray length display)
  | byteVec (display : ByteDisplay) : SameWire (.byteVec display) (.byteVec display)
  | float32 : SameWire .float32 .float32
  | float64 : SameWire .float64 .float64
  | string : SameWire .string .string
  | boolean : SameWire .boolean .boolean
  | skip (n m : Nat) : SameWire (.skip n) (.skip m)

/-- Variants with the same byte whose payloads, if they have any, are behind related links. -/
structure Variant.SameWire (R : Link → Link → Prop) (v w : Variant) : Prop where
  discriminant : v.discriminant = w.discriminant
  payload : Option.Rel R v.payload w.payload

/-- The same constructor with the same wire data over related links. -/
inductive Ty.SameWire (R : Link → Link → Prop) : Ty → Ty → Prop where
  | primitive {p q : Primitive} (h : p.SameWire q) : SameWire R (.primitive p) (.primitive q)
  | enumeration {name name' : Text} {variants variants' : List Variant} {hideTag hideTag' : Bool}
    (h : List.Forall₂ (Variant.SameWire R) variants variants') :
    SameWire R (.enumeration name variants hideTag) (.enumeration name' variants' hideTag')
  | struct {name name' : Text} {fields fields' : List NamedField} {template template' : Option Text}
    {peekable peekable' : Bool} (h : List.Forall₂ (fun f g => R f.type g.type) fields fields') :
    SameWire R (.struct name fields template peekable) (.struct name' fields' template' peekable')
  | tuple {fields fields' : List UnnamedField} {template template' : Option Text}
    {peekable peekable' : Bool} (h : List.Forall₂ (fun f g => R f.type g.type) fields fields') :
    SameWire R (.tuple fields template peekable) (.tuple fields' template' peekable')
  | option {item item' : Link} (h : R item item') : SameWire R (.option item) (.option item')
  | array {item item' : Link} (length : Nat) (h : R item item') :
    SameWire R (.array length item) (.array length item')
  | vec {item item' : Link} (h : R item item') : SameWire R (.vec item) (.vec item')
  | map {key key' value value' : Link} (hk : R key key') (hv : R value value') :
    SameWire R (.map key value) (.map key' value')

/-- The types whose components have names in the name rows. -/
def Ty.isNamed : Ty → Bool
  | .enumeration _ _ _ => true
  | .struct _ _ _ _ => true
  | _ => false

/-- Related links lead to related types, or both to none, and a struct or enum finds the same names
through both. -/
structure Schema.Bisimilar (s₁ s₂ : Schema) (R : Link → Link → Prop) : Prop where
  resolve : ∀ {l₁ l₂ : Link}, R l₁ l₂ →
    SameEnd (fun _ _ => True) (Ty.SameWire R) (s₁.resolve l₁) (s₂.resolve l₂)
  names : ∀ {l₁ l₂ : Link} {type : Ty}, R l₁ l₂ → s₁.resolve l₁ = .ok type → type.isNamed = true →
    (s₁.table? l₁).map NameTable.names = (s₂.table? l₂).map NameTable.names

theorem Primitive.SameWire.refl (p : Primitive) : p.SameWire p := by
  cases p <;> constructor

theorem Ty.SameWire.refl (type : Ty) : type.SameWire (· = ·) type := by
  cases type with
  | primitive p => exact .primitive (.refl p)
  | enumeration name variants hideTag =>
    refine .enumeration (List.forall₂_same.mpr fun v _ => ⟨rfl, ?_⟩)
    cases v.payload with
    | none => exact .none
    | some l => exact .some rfl
  | struct name fields template peekable => exact .struct (List.forall₂_same.mpr fun _ _ => rfl)
  | tuple fields template peekable => exact .tuple (List.forall₂_same.mpr fun _ _ => rfl)
  | option item => exact .option rfl
  | array length item => exact .array length rfl
  | vec item => exact .vec rfl
  | map key value => exact .map rfl rfl

theorem Schema.Bisimilar.refl (s : Schema) : s.Bisimilar s (· = ·) where
  resolve := by
    rintro l _ rfl
    exact .refl (fun _ => trivial) Ty.SameWire.refl _
  names := by
    rintro l _ type rfl _ _
    rfl

theorem Schema.Bisimilar.table?_eq {s₁ s₂ : Schema} {R : Link → Link → Prop}
    (h : s₁.Bisimilar s₂ R) {l₁ l₂ : Link} {type : Ty} (hl : R l₁ l₂)
    (hr : s₁.resolve l₁ = .ok type) (hn : type.isNamed = true) : s₁.table? l₁ = s₂.table? l₂ :=
  Option.map_injective (fun _ _ => NameTable.eq_of_names) (h.names hl hr hn)

/-! ## Related values -/

theorem EncodeError.SameKind.unexpected (t t' : Text) (v v' : Value) :
    SameKind (.unexpected t v) (.unexpected t' v') := ⟨rfl, nofun⟩

/-- Sequences of the same count with related items, or with items that neither shows. -/
structure Items.Related (V : Value → Value → Prop) (x y : Items) : Prop where
  count : x.count = y.count
  opened : SameEnd (· = ·) (List.Forall₂ V) x.opened y.opened

/-- What the encoder can see of a value is the same, or related again, in related values. Of the
entries of mappings it sees four things: what is left when a name is taken out, how many there
are, whether their keys can be spelled, and their order by key text. -/
structure Value.Simulation (V : Value → Value → Prop)
    (M : List (Key × Value) → List (Key × Value) → Prop) : Prop where
  /-- A number or a text that stands for a map key is related to itself. -/
  keyValue : ∀ {type : Ty} {key : Text} {v : Value}, Encode.keyValue type key = .ok v → V v v
  primitive : ∀ {v w : Value}, V v w → ∀ (config : Config) (type : Primitive),
    Output.Alike EncodeError.SameKind (· = ·) (Encode.primitive config type v)
      (Encode.primitive config type w)
  isNull : ∀ {v w : Value}, V v w → v.isNull = w.isNull
  selection : ∀ {v w : Value}, V v w → ∀ name name' : Text,
    SameEnd EncodeError.SameKind (fun a b => a.1 = b.1 ∧ V a.2 b.2) (Encode.selection name v)
      (Encode.selection name' w)
  items : ∀ {v w : Value}, V v w → Option.Rel (Items.Related V) v.items? w.items?
  mapping : ∀ {v w : Value}, V v w →
    Option.Rel (fun m m' => m.count = m'.count ∧ M m.entries m'.entries) v.mapping? w.mapping?
  takeEntry : ∀ {es fs : List (Key × Value)}, M es fs → ∀ name : Text,
    Option.Rel (fun r r' => V r.1 r'.1 ∧ M r.2 r'.2) (Encode.takeEntry name es)
      (Encode.takeEntry name fs)
  length : ∀ {es fs : List (Key × Value)}, M es fs → es.length = fs.length
  checkKeys : ∀ {es fs : List (Key × Value)}, M es fs → Encode.checkKeys es = Encode.checkKeys fs
  sorted : ∀ {es fs : List (Key × Value)}, M es fs →
    List.Forall₂ (fun a b => a.1 = b.1 ∧ V a.2 b.2) (Encode.sortedEntries es)
      (Encode.sortedEntries fs)

namespace Encode

/-! ## Primitive positions -/

theorem eq_of_keyValue {type : Ty} {key : Text} {v : Value} (h : keyValue type key = .ok v) :
    v = .text key ∨ (∃ n, v = .int n) ∨ ∃ x, v = .float x := by
  unfold keyValue at h
  split at h
  · split at h
    · rename_i n hn
      obtain rfl := Except.ok.inj h
      obtain ⟨numeral, _, hv⟩ := Option.bind_eq_some_iff.mp hn
      unfold numberOf? at hv
      split at hv
      · split at hv
        · cases hv
        · exact .inr (.inl ⟨_, (Option.some.inj hv).symm⟩)
      · exact .inr (.inr ⟨_, (Option.some.inj hv).symm⟩)
    · cases h
  · exact .inl (Except.ok.inj h).symm

theorem byteItems_alike {V : Value → Value → Prop}
    (hV : ∀ v w, V v w → SameEnd EncodeError.SameKind (· = ·) (byteValue v) (byteValue w))
    {xs ys : List Value} (h : List.Forall₂ V xs ys) :
    SameEnd EncodeError.SameKind (· = ·) (byteItems (.listed xs)) (byteItems (.listed ys)) := by
  have hbytes := SameEnd.mapM hV h
  rw [List.forall₂_eq_eq_eq] at hbytes
  exact hbytes

/-- Sequences of the same bytes are alike at every primitive position: where no bytes are written
there, both are refused. -/
theorem primitive_alike_of_items {v w : Value} (hv : v.items?.isSome = true)
    (hw : w.items?.isSome = true)
    (hbytes : ∀ (expected : Text) (maxLength : Nat) (display : ByteDisplay),
      SameEnd EncodeError.SameKind (· = ·) (byteString expected maxLength display v)
        (byteString expected maxLength display w))
    (config : Config) (type : Primitive) :
    Output.Alike EncodeError.SameKind (· = ·) (primitive config type v) (primitive config type w) := by
  cases type with
  | byteArray length display =>
    exact (Output.Alike.ofExcept (hbytes _ _ display)).bind fun _ _ hb =>
      hb ▸ .refl .refl (fun _ => rfl) _
  | byteVec display =>
    exact (Output.Alike.ofExcept (hbytes _ _ display)).bind fun _ _ hb =>
      hb ▸ .refl .refl (fun _ => rfl) _
  | skip length => exact .pure rfl
  | _ =>
    -- no sequence is a number, a text or a truth value
    cases v <;> cases hv <;> cases w <;> cases hw <;> exact .fail (.unexpected _ _ _ _)

/-- The two walks at the next level are alike for types behind related links. -/
def NextAlike (s₁ s₂ : Schema) (R : Link → Link → Prop) (V : Value → Value → Prop)
    (next₁ next₂ : Visit) : Prop :=
  ∀ (l₁ l₂ : Link) (t₁ t₂ : Ty) (v w : Value), R l₁ l₂ → s₁.resolve l₁ = .ok t₁ →
    s₂.resolve l₂ = .ok t₂ → t₁.SameWire R t₂ → V v w →
    Output.Alike EncodeError.SameKind (· = ·) (next₁ t₁ l₁ v) (next₂ t₂ l₂ w)

/-! ## One level -/

section Level

variable {s₁ s₂ : Schema} {R : Link → Link → Prop} {V : Value → Value → Prop}
  {M : List (Key × Value) → List (Key × Value) → Prop} {next₁ next₂ : Visit}

theorem resolve_bind_alike (hR : s₁.Bisimilar s₂ R) {l₁ l₂ : Link} (hl : R l₁ l₂) {α β : Type}
    {A : α → β → Prop} {f : Ty → Output EncodeError α} {g : Ty → Output EncodeError β}
    (hfg : ∀ t₁ t₂, s₁.resolve l₁ = .ok t₁ → s₂.resolve l₂ = .ok t₂ → t₁.SameWire R t₂ →
      Output.Alike EncodeError.SameKind A (f t₁) (g t₂)) :
    Output.Alike EncodeError.SameKind A
      (Output.ofExcept ((s₁.resolve l₁).mapError .unresolved) >>= f)
      (Output.ofExcept ((s₂.resolve l₂).mapError .unresolved) >>= g) := by
  have hr := hR.resolve hl
  cases h₁ : s₁.resolve l₁ with
  | error u₁ =>
    cases h₂ : s₂.resolve l₂ with
    | error u₂ => exact .fail ⟨rfl, nofun⟩
    | ok t₂ => simp only [h₁, h₂] at hr; cases hr
  | ok t₁ =>
    cases h₂ : s₂.resolve l₂ with
    | error u₂ => simp only [h₁, h₂] at hr; cases hr
    | ok t₂ =>
      rw [h₁, h₂] at hr
      obtain ⟨ht⟩ | _ := hr
      exact hfg t₁ t₂ h₁ h₂ ht

variable (hR : s₁.Bisimilar s₂ R) (hV : Value.Simulation V M) (hn : NextAlike s₁ s₂ R V next₁ next₂)

include hR hn in
theorem follow_alike {l₁ l₂ : Link} {v w : Value} (hl : R l₁ l₂) (hv : V v w) :
    Output.Alike EncodeError.SameKind (· = ·) (follow s₁ next₁ l₁ v) (follow s₂ next₂ l₂ w) :=
  resolve_bind_alike hR hl fun _ _ h₁ h₂ ht => hn _ _ _ _ _ _ hl h₁ h₂ ht hv

theorem variantOf?_related {variants variants' : List Variant} (table : NameTable) (name : Key)
    (h : List.Forall₂ (Variant.SameWire R) variants variants') :
    Option.Rel (Variant.SameWire R) (variantOf? table variants name)
      (variantOf? table variants' name) := by
  have hget : ∀ position : Nat,
      Option.Rel (Variant.SameWire R) variants[position]? variants'[position]? := by
    induction h with
    | nil => intro position; exact .none
    | cons hv _ ih =>
      intro position
      cases position with
      | zero => exact .some hv
      | succ position => exact ih position
  cases name with
  | text t =>
    simp only [variantOf?]
    cases table.position? t with
    | none => exact .none
    | some position => exact hget position
  | _ => exact .none

include hR hV hn in
theorem payload_alike {name name' : Text} {variant variant' : Variant}
    (h : variant.SameWire R variant') {v w : Value} (hv : V v w) :
    Output.Alike EncodeError.SameKind (· = ·) (payload s₁ next₁ name variant v)
      (payload s₂ next₂ name' variant' w) := by
  have hpayload := h.payload
  unfold payload
  rw [hV.isNull hv]
  generalize variant.payload = link, variant'.payload = link' at hpayload
  cases hpayload with
  | none =>
    cases w.isNull with
    | true => exact .pure rfl
    | false => exact .fail ⟨rfl, nofun⟩
  | some hl =>
    cases w.isNull with
    | true => exact .fail ⟨rfl, nofun⟩
    | false => exact follow_alike hR hn hl hv

include hR hV hn in
theorem enumeration_alike {name name' : Text} {variants variants' : List Variant}
    (h : List.Forall₂ (Variant.SameWire R) variants variants') {l₁ l₂ : Link}
    (ht : s₁.table? l₁ = s₂.table? l₂) {v w : Value} (hv : V v w) :
    Output.Alike EncodeError.SameKind (· = ·) (enumeration s₁ next₁ name variants l₁ v)
      (enumeration s₂ next₂ name' variants' l₂ w) := by
  refine (Output.Alike.ofExcept (hV.selection hv name name')).bind ?_
  rintro ⟨key, inner⟩ ⟨key', inner'⟩ ⟨rfl, hinner⟩
  dsimp only
  rw [ht]
  cases s₂.table? l₂ with
  | none => exact .fail ⟨rfl, nofun⟩
  | some table =>
    have hvariant := variantOf?_related table key h
    dsimp only
    generalize variantOf? table variants key = found, variantOf? table variants' key = found'
      at hvariant
    cases hvariant with
    | none => exact .fail ⟨rfl, nofun⟩
    | @some variant variant' hvariant =>
      dsimp only
      rw [hvariant.discriminant]
      exact (Output.Alike.refl .refl (fun _ => rfl) _).bind fun _ _ _ =>
        payload_alike hR hV hn hvariant hinner

include hR hV hn in
theorem fieldsOf_alike {name name' : Text} {fields fields' : List NamedField}
    (h : List.Forall₂ (fun f g => R f.type g.type) fields fields') (names : List Text)
    {es fs : List (Key × Value)} (he : M es fs) :
    Output.Alike EncodeError.SameKind M (fieldsOf s₁ next₁ name fields names es)
      (fieldsOf s₂ next₂ name' fields' names fs) := by
  induction h generalizing names es fs with
  | nil => exact .pure he
  | @cons field field' fields fields' hf _ ih =>
    cases names with
    | nil => exact .pure he
    | cons first names =>
      have htake := hV.takeEntry he first
      unfold fieldsOf
      generalize takeEntry first es = taken, takeEntry first fs = taken' at htake
      cases htake with
      | none => exact .fail ⟨rfl, nofun⟩
      | some h =>
        exact (follow_alike hR hn hf h.1).bind fun _ _ _ => ih names h.2

include hR hV hn in
theorem struct_alike {name name' : Text} {fields fields' : List NamedField}
    (h : List.Forall₂ (fun f g => R f.type g.type) fields fields') {l₁ l₂ : Link}
    (ht : s₁.table? l₁ = s₂.table? l₂) {v w : Value} (hv : V v w) :
    Output.Alike EncodeError.SameKind (· = ·) (struct s₁ next₁ name fields l₁ v)
      (struct s₂ next₂ name' fields' l₂ w) := by
  have hm := hV.mapping hv
  unfold struct
  rw [ht, h.length_eq]
  generalize v.mapping? = m, w.mapping? = m' at hm
  cases hm with
  | none => exact .fail (.unexpected _ _ _ _)
  | some hm =>
    dsimp only
    cases s₂.table? l₂ with
    | none => exact .fail ⟨rfl, nofun⟩
    | some table =>
      dsimp only
      by_cases hlt : table.names.length < fields'.length
      · rw [if_pos hlt, if_pos hlt]
        exact .fail ⟨rfl, nofun⟩
      · rw [if_neg hlt, if_neg hlt]
        refine (fieldsOf_alike hR hV hn h table.names hm.2).bind fun rest rest' hrest => ?_
        have hempty : rest.isEmpty = rest'.isEmpty := by
          have hlen := hV.length hrest
          cases rest <;> cases rest' <;> first | rfl | exact absurd hlen (by simp)
        rw [hempty]
        cases rest'.isEmpty with
        | true => exact .pure rfl
        | false => exact .fail ⟨rfl, nofun⟩

include hR hn in
theorem positions_alike {fields fields' : List UnnamedField}
    (h : List.Forall₂ (fun f g => R f.type g.type) fields fields') {vs ws : List Value}
    (hv : List.Forall₂ V vs ws) :
    Output.Alike EncodeError.SameKind (· = ·) (positions s₁ next₁ fields vs)
      (positions s₂ next₂ fields' ws) := by
  induction h generalizing vs ws with
  | nil => exact .pure rfl
  | cons hf _ ih =>
    cases hv with
    | nil => exact .pure rfl
    | cons hvw hrest => exact (follow_alike hR hn hf hvw).bind fun _ _ _ => ih hrest

theorem counted_bind_alike {count count' : Except Uncountable Nat} (h : count = count')
    {f g : Nat → Output EncodeError Unit}
    (hfg : ∀ n, Output.Alike EncodeError.SameKind (· = ·) (f n) (g n)) :
    Output.Alike EncodeError.SameKind (· = ·) (counted count >>= f) (counted count' >>= g) := by
  subst h
  exact (Output.Alike.refl .refl (fun _ => rfl) _).bind fun n _ hn => hn ▸ hfg n

theorem opened_alike {x y : Items} (h : x.Related V y) :
    Output.Alike EncodeError.SameKind (List.Forall₂ V)
      (Output.ofExcept (x.opened.mapError .unreadable))
      (Output.ofExcept (y.opened.mapError .unreadable)) :=
  .ofExcept (h.opened.mapError fun _ _ hreason => hreason ▸ .refl _)

include hR hV hn in
theorem tupleItems_alike {fields fields' : List UnnamedField}
    (h : List.Forall₂ (fun f g => R f.type g.type) fields fields') {v w : Value} (hv : V v w) :
    Output.Alike EncodeError.SameKind (· = ·) (tupleItems s₁ next₁ fields v)
      (tupleItems s₂ next₂ fields' w) := by
  have hi := hV.items hv
  unfold tupleItems
  rw [h.length_eq]
  generalize v.items? = items, w.items? = items' at hi
  cases hi with
  | none => exact .fail (.unexpected _ _ _ _)
  | some hi =>
    refine counted_bind_alike hi.count fun n => ?_
    by_cases hlen : n = fields'.length
    · rw [if_pos hlen, if_pos hlen]
      exact (opened_alike hi).bind fun values values' hvalues => positions_alike hR hn h hvalues
    · rw [if_neg hlen, if_neg hlen]
      exact .fail ⟨rfl, nofun⟩

include hR hV hn in
theorem tuple_alike {fields fields' : List UnnamedField}
    (h : List.Forall₂ (fun f g => R f.type g.type) fields fields') {v w : Value} (hv : V v w) :
    Output.Alike EncodeError.SameKind (· = ·) (tuple s₁ next₁ fields v)
      (tuple s₂ next₂ fields' w) := by
  have hwrapped := tupleItems_alike hR hV hn h hv
  cases h with
  | nil => exact hwrapped
  | cons hf hrest =>
    cases hrest with
    | nil => exact follow_alike hR hn hf hv
    | cons _ _ => exact hwrapped

include hR hV hn in
theorem option_alike {l₁ l₂ : Link} (hl : R l₁ l₂) {v w : Value} (hv : V v w) :
    Output.Alike EncodeError.SameKind (· = ·) (option s₁ next₁ l₁ v) (option s₂ next₂ l₂ w) := by
  unfold option
  rw [hV.isNull hv]
  cases w.isNull with
  | true => exact .refl .refl (fun _ => rfl) _
  | false =>
    exact (Output.Alike.refl .refl (fun _ => rfl) _).bind fun _ _ _ => follow_alike hR hn hl hv

include hn in
theorem forItems_alike {l₁ l₂ : Link} {t₁ t₂ : Ty} (hl : R l₁ l₂) (h₁ : s₁.resolve l₁ = .ok t₁)
    (h₂ : s₂.resolve l₂ = .ok t₂) (ht : t₁.SameWire R t₂) {x y : Items} (h : x.Related V y) :
    Output.Alike EncodeError.SameKind (· = ·) (Write.forItems .unreadable x (next₁ t₁ l₁))
      (Write.forItems .unreadable y (next₂ t₂ l₂)) := by
  rw [Write.forItems_eq_forEach, Write.forItems_eq_forEach]
  refine (opened_alike h).bind fun values values' hvalues => ?_
  exact .forEach rfl (fun v w hv => hn l₁ l₂ t₁ t₂ v w hl h₁ h₂ ht hv) hvalues

include hR hV hn in
theorem array_alike {l₁ l₂ : Link} (length : Nat) (hl : R l₁ l₂) {v w : Value} (hv : V v w) :
    Output.Alike EncodeError.SameKind (· = ·) (array s₁ next₁ length l₁ v)
      (array s₂ next₂ length l₂ w) := by
  have hi := hV.items hv
  unfold array
  generalize v.items? = items, w.items? = items' at hi
  cases hi with
  | none => exact .fail (.unexpected _ _ _ _)
  | some hi =>
    refine counted_bind_alike hi.count fun n => ?_
    by_cases hlen : n = length
    · rw [if_pos hlen, if_pos hlen]
      exact resolve_bind_alike hR hl fun _ _ h₁ h₂ ht => forItems_alike hn hl h₁ h₂ ht hi
    · rw [if_neg hlen, if_neg hlen]
      exact .fail ⟨rfl, nofun⟩

include hR hV hn in
theorem vec_alike {l₁ l₂ : Link} (hl : R l₁ l₂) {v w : Value} (hv : V v w) :
    Output.Alike EncodeError.SameKind (· = ·) (vec s₁ next₁ l₁ v) (vec s₂ next₂ l₂ w) := by
  have hi := hV.items hv
  unfold vec
  generalize v.items? = items, w.items? = items' at hi
  cases hi with
  | none => exact .fail (.unexpected _ _ _ _)
  | some hi =>
    refine counted_bind_alike hi.count fun n => ?_
    refine (Output.Alike.refl .refl (fun _ => rfl) _).bind fun _ _ _ => ?_
    refine resolve_bind_alike hR hl fun _ _ h₁ h₂ ht => ?_
    exact (Output.Alike.refl .refl (fun _ => rfl) _).bind fun _ _ _ =>
      forItems_alike hn hl h₁ h₂ ht hi

theorem isNumeric_congr {t₁ t₂ : Ty} (h : t₁.SameWire R t₂) : isNumeric t₁ = isNumeric t₂ := by
  cases h with
  | primitive h => cases h <;> rfl
  | _ => rfl

include hR hV hn in
theorem map_alike {k₁ k₂ l₁ l₂ : Link} (hk : R k₁ k₂) (hl : R l₁ l₂) {v w : Value} (hv : V v w) :
    Output.Alike EncodeError.SameKind (· = ·) (map s₁ next₁ k₁ l₁ v) (map s₂ next₂ k₂ l₂ w) := by
  have hm := hV.mapping hv
  unfold map
  generalize v.mapping? = m, w.mapping? = m' at hm
  cases hm with
  | none => exact .fail (.unexpected _ _ _ _)
  | @some m m' hm =>
    refine counted_bind_alike hm.1 fun n => ?_
    refine (Output.Alike.refl .refl (fun _ => rfl) _).bind fun _ _ _ => ?_
    refine resolve_bind_alike hR hk fun kt₁ kt₂ hk₁ hk₂ hkt => ?_
    refine resolve_bind_alike hR hl fun vt₁ vt₂ hl₁ hl₂ hvt => ?_
    rw [hV.checkKeys hm.2]
    refine (Output.Alike.refl .refl (fun _ => rfl) _).bind fun _ _ _ => ?_
    dsimp only
    have hsorted := hV.sorted hm.2
    rw [hsorted.length_eq]
    refine (Output.Alike.refl .refl (fun _ => rfl) _).bind fun _ _ _ => ?_
    refine .forEach rfl ?_ hsorted
    rintro ⟨key, v⟩ ⟨_, w⟩ ⟨rfl, hvw⟩
    dsimp only
    have hkey : keyValue kt₁ key = keyValue kt₂ key := by
      unfold keyValue
      rw [isNumeric_congr hkt]
    rw [← hkey]
    cases hkv : keyValue kt₁ key with
    | error e => exact .fail (.refl e)
    | ok kv =>
      refine (hn k₁ k₂ kt₁ kt₂ kv kv hk hk₁ hk₂ hkt (hV.keyValue hkv)).bind fun _ _ _ => ?_
      exact hn l₁ l₂ vt₁ vt₂ v w hl hl₁ hl₂ hvt hvw

theorem primitive_congr (config : Config) {p q : Primitive} (h : p.SameWire q) (v : Value) :
    primitive config p v = primitive config q v := by
  cases h <;> rfl

include hR hV hn in
/-- One level of the walk, one case for each type constructor. -/
theorem step_alike (config : Config) {t₁ t₂ : Ty} (ht : t₁.SameWire R t₂) {l₁ l₂ : Link}
    (hl : R l₁ l₂) (h₁ : s₁.resolve l₁ = .ok t₁) {v w : Value} (hv : V v w) :
    Output.Alike EncodeError.SameKind (· = ·) (step ⟨s₁, config⟩ next₁ t₁ l₁ v)
      (step ⟨s₂, config⟩ next₂ t₂ l₂ w) := by
  cases ht with
  | @primitive p q h =>
    show Output.Alike _ _ (primitive config p v) (primitive config q w)
    rw [← primitive_congr config h]
    exact hV.primitive hv config p
  | enumeration h => exact enumeration_alike hR hV hn h (hR.table?_eq hl h₁ rfl) hv
  | struct h => exact struct_alike hR hV hn h (hR.table?_eq hl h₁ rfl) hv
  | tuple h => exact tuple_alike hR hV hn h hv
  | option h => exact option_alike hR hV hn h hv
  | array length h => exact array_alike hR hV hn length h hv
  | vec h => exact vec_alike hR hV hn h hv
  | map hk hl => exact map_alike hR hV hn hk hl hv

end Level

/-! ## The whole walk -/

/-- Walks through related links over related values are alike, however many levels they have. -/
theorem visit_alike {s₁ s₂ : Schema} {R : Link → Link → Prop} {V : Value → Value → Prop}
    {M : List (Key × Value) → List (Key × Value) → Prop} (hR : s₁.Bisimilar s₂ R)
    (hV : Value.Simulation V M) (config : Config) (levels : Nat) :
    NextAlike s₁ s₂ R V (visit ⟨s₁, config⟩ levels) (visit ⟨s₂, config⟩ levels) := by
  induction levels with
  | zero =>
    intro l₁ l₂ t₁ t₂ v w _ _ _ _ _
    exact .fail (.refl _)
  | succ levels ih =>
    intro l₁ l₂ t₁ t₂ v w hl h₁ _ ht hv
    exact step_alike hR hV ih config ht hl h₁ hv

end Encode

/-- Encodings against root types behind related links agree on related values. -/
theorem Encoder.encodeWithin_agree {s₁ s₂ : Schema} {R : Link → Link → Prop}
    {V : Value → Value → Prop} {M : List (Key × Value) → List (Key × Value) → Prop}
    (hR : s₁.Bisimilar s₂ R) (hV : Value.Simulation V M) (config : Config) (levels : Nat)
    {i j : Nat} (hij : R (.byIndex i) (.byIndex j)) {v w : Value} (hv : V v w) :
    Encode.Agree (Encoder.encodeWithin ⟨s₁, config⟩ levels (.int i) v)
      (Encoder.encodeWithin ⟨s₂, config⟩ levels (.int j) w) := by
  have hr := hR.resolve hij
  simp only [encodeWithin_int]
  simp only [Schema.resolve_byIndex] at hr
  cases h₁ : s₁.types[i]? with
  | none =>
    cases h₂ : s₂.types[j]? with
    | none => exact .error ⟨rfl, nofun⟩
    | some t₂ => simp only [h₁, h₂] at hr; cases hr
  | some t₁ =>
    cases h₂ : s₂.types[j]? with
    | none => simp only [h₁, h₂] at hr; cases hr
    | some t₂ =>
      rw [h₁, h₂] at hr
      obtain ⟨ht⟩ | _ := hr
      exact (Encode.visit_alike hR hV config levels _ _ _ _ v w hij
        (Schema.resolve_byIndex_iff.mpr h₁) (Schema.resolve_byIndex_iff.mpr h₂) ht hv).result

end BorshWire
