import BorshWire.Proofs.Refusal.Walk
import BorshWire.Serializer
import Mathlib.Algebra.GroupWithZero.Nat

/-!
# Types of a fixed size

`Encoder.length_of_encode`: where the links of a type unfold to a size (`Schema.HasSize`), every value
that is encoded takes exactly this many bytes, in whatever form it is given.

A size is found by unfolding links until only primitive types of a fixed width are left, so there is
none where a link leads back to where it came from, nor through a type whose length or presence is
written with its value.
-/

namespace BorshWire

/-- The size of a primitive type on the wire, if all of its values have the same. -/
def Primitive.size? : Primitive → Option Nat
  | integer kind _ => some (kind.bits / 8)
  | byteArray length _ => some length
  | byteVec _ => none
  | float32 => some 4
  | float64 => some 8
  | string => none
  | boolean => some 1
  | skip _ => some 0

/-- The type that a link leads to unfolds to a size. All variants of an enum have payloads of one
size; without a payload this is zero. -/
inductive Schema.HasSize (s : Schema) : Link → Nat → Prop where
  | primitive {link : Link} {type : Primitive} {size : Nat}
    (h : s.resolve link = .ok (.primitive type)) (own : type.size? = some size) :
    HasSize s link size
  | tuple {link : Link} {fields : List UnnamedField} {template : Option Text} {peekable : Bool}
    {sizes : List Nat} (h : s.resolve link = .ok (.tuple fields template peekable))
    (length : fields.length = sizes.length)
    (each : ∀ pair ∈ fields.zip sizes, HasSize s pair.1.type pair.2) : HasSize s link sizes.sum
  | struct {link : Link} {name : Text} {fields : List NamedField} {template : Option Text}
    {peekable : Bool} {sizes : List Nat}
    (h : s.resolve link = .ok (.struct name fields template peekable))
    (length : fields.length = sizes.length)
    (each : ∀ pair ∈ fields.zip sizes, HasSize s pair.1.type pair.2) : HasSize s link sizes.sum
  | array {link item : Link} {length size : Nat} (h : s.resolve link = .ok (.array length item))
    (each : HasSize s item size) : HasSize s link (length * size)
  | enumeration {link : Link} {name : Text} {variants : List Variant} {hideTag : Bool} {size : Nat}
    (h : s.resolve link = .ok (.enumeration name variants hideTag))
    (bare : ∀ variant ∈ variants, variant.payload = none → size = 0)
    (each : ∀ variant ∈ variants, ∀ inner, variant.payload = some inner → HasSize s inner size) :
    HasSize s link (1 + size)

/-! ## Steps of a known size -/

namespace Output

variable {ε ε' α β : Type}

/-- If the step ends well, it has put out this many bytes. -/
def Fills (size : Nat) (x : Output ε α) : Prop := ∀ bytes a, x.Yields bytes a → bytes.length = size

namespace Fills

variable {m n : Nat}

theorem fail {e : ε} : (Output.fail e : Output ε α).Fills n := fun _ _ h => absurd h not_yields_fail

theorem pure (a : α) : (Pure.pure a : Output ε α).Fills 0 := by
  intro bytes b h
  obtain ⟨rfl, _⟩ := yields_pure_iff.mp h
  rfl

theorem emit (bytes : List UInt8) : (Output.emit bytes : Output ε Unit).Fills bytes.length := by
  intro own _ h
  rw [yields_emit_iff.mp h]

theorem mapError {f : ε → ε'} {x : Output ε α} (h : x.Fills n) : (x.mapError f).Fills n :=
  fun bytes a hy => h bytes a (yields_mapError_iff.mp hy)

theorem bind {x : Output ε α} {f : α → Output ε β} (hx : x.Fills m) (hf : ∀ a, (f a).Fills n) :
    (x >>= f).Fills (m + n) := by
  intro bytes b h
  obtain ⟨front, a, back, hfront, hback, rfl⟩ := yields_bind_iff.mp h
  rw [List.length_append, hx front a hfront, hf a back b hback]

theorem ofExcept_bind {r : Except ε α} {f : α → Output ε β} (h : ∀ a, r = .ok a → (f a).Fills n) :
    (Output.ofExcept r >>= f).Fills n := by
  intro bytes b hy
  obtain ⟨a, ha, hf⟩ := yields_ofExcept_bind_iff.mp hy
  exact h a ha bytes b hf

theorem forEach {f : α → Output ε Unit} (h : ∀ a, (f a).Fills n) (items : List α) :
    (Output.forEach f items).Fills (items.length * n) := by
  induction items with
  | nil =>
    rw [List.length_nil, Nat.zero_mul]
    exact pure ()
  | cons a rest ih =>
    rw [List.length_cons, Nat.succ_mul, Nat.add_comm]
    exact (h a).bind fun _ => ih

end Fills

end Output

/-! ## The walk -/

namespace Encode

open Output (Fills)

/-- A primitive type of a fixed size, whatever the value: for byte arrays it is the length that is
compared with the declared one, for numbers the width of what is written. -/
theorem primitive_fills {type : Primitive} {size : Nat} (h : type.size? = some size)
    (config : Config) (v : Value) : (primitive config type v).Fills size := by
  cases type with
  | integer kind display =>
    obtain rfl := Option.some.inj h
    refine .ofExcept_bind fun n _ => .mapError fun bytes _ hy => ?_
    obtain ⟨m, _, _, rfl⟩ := Write.integer_yields_iff.mp hy
    exact IntRange.length_bytes kind.range m
  | byteArray length display =>
    obtain rfl := Option.some.inj h
    refine .ofExcept_bind fun data _ => ?_
    split
    · rename_i hlength
      rw [← hlength]
      exact (Fills.emit data).mapError
    · exact .fail
  | float32 =>
    obtain rfl := Option.some.inj h
    refine .ofExcept_bind fun x _ => .mapError fun bytes _ hy => ?_
    obtain ⟨_, rfl⟩ := Write.single_yields_iff.mp hy
    exact length_littleEndian 4 _
  | float64 =>
    obtain rfl := Option.some.inj h
    refine .ofExcept_bind fun x _ => .mapError fun bytes _ hy => ?_
    obtain ⟨_, rfl⟩ := Write.double_yields_iff.mp hy
    exact length_littleEndian 8 _
  | boolean =>
    obtain rfl := Option.some.inj h
    exact .ofExcept_bind fun b _ => (Fills.emit [if b then 1 else 0]).mapError
  | skip length =>
    obtain rfl := Option.some.inj h
    exact .pure ()
  | _ => cases h

section Containers

variable {s : Schema} {next : Visit}

theorem positions_fills {fields : List UnnamedField} {sizes : List Nat}
    (hsizes : fields.length = sizes.length)
    (h : ∀ pair ∈ fields.zip sizes, ∀ v, (follow s next pair.1.type v).Fills pair.2)
    {vs : List Value} (hlength : vs.length = fields.length) :
    (positions s next fields vs).Fills sizes.sum := by
  induction fields generalizing sizes vs with
  | nil =>
    obtain rfl := List.length_eq_zero_iff.mp hsizes.symm
    exact .pure ()
  | cons field fields ih =>
    obtain ⟨size, sizes, rfl⟩ := List.exists_cons_of_length_eq_add_one hsizes.symm
    obtain ⟨v, rest, rfl⟩ := List.exists_cons_of_length_eq_add_one hlength
    obtain ⟨hfield, hfields⟩ := List.forall_mem_cons.mp h
    rw [List.sum_cons]
    exact (hfield v).bind fun _ => ih (Nat.succ.inj hsizes) hfields (Nat.succ.inj hlength)

theorem tuple_fills {fields : List UnnamedField} {sizes : List Nat}
    (hsizes : fields.length = sizes.length)
    (h : ∀ pair ∈ fields.zip sizes, ∀ v, (follow s next pair.1.type v).Fills pair.2) (v : Value) :
    (tuple s next fields v).Fills sizes.sum := by
  have hitems : (tupleItems s next fields v).Fills sizes.sum := by
    unfold tupleItems
    split
    · exact .fail
    · rename_i items _
      refine .ofExcept_bind fun count hcount => ?_
      split
      · rename_i hlength
        refine .ofExcept_bind fun values hvalues => positions_fills hsizes h ?_
        rw [← Items.length_of_opened (Output.mapError_eq_ok_iff.mp hvalues),
          ← Items.eq_length_of_count (Output.mapError_eq_ok_iff.mp hcount), hlength]
      · exact .fail
  match fields, hsizes, h, hitems with
  | [], _, _, hitems => exact hitems
  | [field], hsizes, h, _ =>
    -- the value of the field is not wrapped
    obtain ⟨size, rfl⟩ := List.length_eq_one_iff.mp hsizes.symm
    rw [List.sum_singleton]
    exact h (field, size) List.mem_cons_self v
  | _ :: _ :: _, _, _, hitems => exact hitems

theorem fieldsOf_fills {container : Text} {fields : List NamedField} {sizes : List Nat}
    (hsizes : fields.length = sizes.length)
    (h : ∀ pair ∈ fields.zip sizes, ∀ v, (follow s next pair.1.type v).Fills pair.2)
    {names : List Text} (hnames : fields.length ≤ names.length) (entries : List (Key × Value)) :
    (fieldsOf s next container fields names entries).Fills sizes.sum := by
  induction fields generalizing sizes names entries with
  | nil =>
    obtain rfl := List.length_eq_zero_iff.mp hsizes.symm
    exact .pure entries
  | cons field fields ih =>
    obtain ⟨size, sizes, rfl⟩ := List.exists_cons_of_length_eq_add_one hsizes.symm
    obtain ⟨hfield, hfields⟩ := List.forall_mem_cons.mp h
    cases names with
    | nil => cases hnames
    | cons name names =>
      rw [fieldsOf]
      split
      · exact .fail
      · rename_i v rest _
        rw [List.sum_cons]
        refine (hfield v).bind fun _ => ?_
        exact ih (Nat.succ.inj hsizes) hfields (Nat.le_of_succ_le_succ hnames) rest

theorem struct_fills {container : Text} {fields : List NamedField} {sizes : List Nat}
    (hsizes : fields.length = sizes.length)
    (h : ∀ pair ∈ fields.zip sizes, ∀ v, (follow s next pair.1.type v).Fills pair.2) (link : Link)
    (v : Value) : (struct s next container fields link v).Fills sizes.sum := by
  unfold struct
  split
  · exact .fail
  · rename_i m _
    split
    · exact .fail
    · split
      · exact .fail
      · rename_i hnames
        show Fills (sizes.sum + 0) _
        refine (fieldsOf_fills hsizes h (Nat.not_lt.mp hnames) m.entries).bind fun rest => ?_
        split
        · exact .pure ()
        · exact .fail

theorem array_fills {length size : Nat} {item : Link}
    (h : ∀ v, (follow s next item v).Fills size) (v : Value) :
    (array s next length item v).Fills (length * size) := by
  unfold array
  split
  · exact .fail
  · rename_i items _
    refine .ofExcept_bind fun count hcount => ?_
    split
    · rename_i hlength
      refine .ofExcept_bind fun type hr => ?_
      have hitem : ∀ w, (next type item w).Fills size := fun w => by
        rw [← follow_of_resolve (Output.mapError_eq_ok_iff.mp hr) next w]
        exact h w
      rw [Write.forItems_eq_forEach, ← hlength,
        Items.eq_length_of_count (Output.mapError_eq_ok_iff.mp hcount)]
      refine .ofExcept_bind fun values hvalues => ?_
      rw [Items.length_of_opened (Output.mapError_eq_ok_iff.mp hvalues)]
      exact .forEach hitem values
    · exact .fail

theorem enumeration_fills {container : Text} {variants : List Variant} {size : Nat}
    (bare : ∀ variant ∈ variants, variant.payload = none → size = 0)
    (h : ∀ variant ∈ variants, ∀ inner, variant.payload = some inner →
      ∀ v, (follow s next inner v).Fills size) (link : Link) (v : Value) :
    (enumeration s next container variants link v).Fills (1 + size) := by
  refine .ofExcept_bind fun ⟨name, inner⟩ _ => ?_
  dsimp only
  split
  · exact .fail
  · split
    · exact .fail
    · rename_i variant hvariant
      have hmem := mem_of_variantOf? hvariant
      refine (Fills.emit [variant.discriminant]).mapError.bind fun _ => ?_
      unfold payload
      split
      · rename_i hpayload
        split
        · exact .fail
        · exact h variant hmem _ hpayload inner
      · rename_i hpayload
        rw [bare variant hmem hpayload]
        split
        · exact .pure ()
        · exact .fail

end Containers

/-- Following a link puts out as many bytes as the link unfolds to, on any number of levels. -/
theorem follow_fills {e : Encoder} {link : Link} {size : Nat} (h : e.schema.HasSize link size)
    (levels : Nat) (v : Value) : (follow e.schema (visit e levels) link v).Fills size := by
  induction h generalizing levels v with
  | primitive hr own =>
    rw [follow_of_resolve hr]
    cases levels with
    | zero => exact .fail
    | succ levels => exact primitive_fills own e.config v
  | tuple hr hsizes _ ih =>
    rw [follow_of_resolve hr]
    cases levels with
    | zero => exact .fail
    | succ levels => exact tuple_fills hsizes (fun pair hp w => ih pair hp levels w) v
  | struct hr hsizes _ ih =>
    rw [follow_of_resolve hr]
    cases levels with
    | zero => exact .fail
    | succ levels => exact struct_fills hsizes (fun pair hp w => ih pair hp levels w) _ v
  | array hr _ ih =>
    rw [follow_of_resolve hr]
    cases levels with
    | zero => exact .fail
    | succ levels => exact array_fills (fun w => ih levels w) v
  | enumeration hr bare _ ih =>
    rw [follow_of_resolve hr]
    cases levels with
    | zero => exact .fail
    | succ levels =>
      exact enumeration_fills bare (fun variant hv inner hi w => ih variant hv inner hi levels w) _ v

end Encode

namespace Encoder

open Encode (visit)

/-- Where the links of a type unfold to a size, every value that is written there takes as many bytes:
at any depth, and encoded against an entry of the type table. -/
theorem length_of_encode {e : Encoder} {link : Link} {size : Nat} (h : e.schema.HasSize link size) :
    (∀ levels type v own, e.schema.resolve link = .ok type →
      (visit e levels type link v).Yields own () → own.length = size) ∧
    ∀ index, link = .byIndex index → ∀ stack v bytes,
      e.encode (.int index) v = .ok bytes ∨ e.run stack (.int index) v = .ok bytes ∨
        e.serialize stack (.int index) v = .ok bytes → bytes.length = size := by
  have hvisit : ∀ levels type v own, e.schema.resolve link = .ok type →
      (visit e levels type link v).Yields own () → own.length = size := by
    intro levels type v own hr hy
    rw [← Encode.follow_of_resolve hr (visit e levels) v] at hy
    exact Encode.follow_fills h levels v own () hy
  refine ⟨hvisit, ?_⟩
  rintro index rfl
  have hwithin : ∀ levels v bytes, e.encodeWithin levels (.int index) v = .ok bytes →
      bytes.length = size := by
    intro levels v bytes hbytes
    rw [encodeWithin_int] at hbytes
    split at hbytes
    · cases hbytes
    · rename_i type htype
      exact hvisit levels type v bytes (Schema.resolve_byIndex_iff.mpr htype)
        (Output.result_eq_ok_iff_yields.mp hbytes)
  rintro stack v bytes (hbytes | hbytes | hbytes)
  · exact hwithin _ v bytes hbytes
  · exact hwithin _ v bytes hbytes
  · unfold serialize at hbytes
    split at hbytes
    · exact hwithin _ _ bytes hbytes
    · cases hbytes

end Encoder

/-- Two stops, each with a code and a mark, a fare in coins or points, and a remark without bytes. -/
def Schema.route : Schema :=
  build
    [.struct "Route" [⟨"Stops", .byIndex 1, false, ""⟩, ⟨"Fare", .byIndex 3, false, ""⟩,
        ⟨"Remark", .immediate (.skip 0), false, ""⟩] none false,
      .array 2 (.byIndex 2),
      .tuple [⟨.immediate (.byteArray 2 (.hex none)), false, ""⟩, ⟨.immediate .boolean, false, ""⟩]
        none false,
      .enumeration "Fare" [⟨"Coins", 0, none, some (.immediate .float32)⟩,
        ⟨"Points", 7, none, some (.immediate (.integer ⟨true, .w32⟩ ⟨.decimal, none, none, none⟩))⟩]
        false]
    [0] [⟨"Route", ["stops", "fare", "remark"]⟩, ⟨"", []⟩, ⟨"", []⟩, ⟨"Fare", ["coins", "points"]⟩]
    none [] []

/-- A stop takes three bytes, a fare takes five. -/
theorem Schema.route_hasSize : route.HasSize (.byIndex 0) 11 := by
  have hstop : route.HasSize (.byIndex 2) 3 := by
    show route.HasSize (.byIndex 2) [2, 1].sum
    refine .tuple rfl rfl ?_
    simp only [List.zip_cons_cons, List.forall_mem_cons]
    exact ⟨.primitive rfl rfl, .primitive rfl rfl, List.forall_mem_nil _⟩
  have hfare : route.HasSize (.byIndex 3) 5 := by
    show route.HasSize (.byIndex 3) (1 + 4)
    refine .enumeration rfl ?_ ?_
    · simp only [List.forall_mem_cons]
      exact ⟨nofun, nofun, List.forall_mem_nil _⟩
    · simp only [List.forall_mem_cons]
      refine ⟨?_, ?_, List.forall_mem_nil _⟩
      all_goals
        rintro _ ⟨⟩
        exact .primitive rfl rfl
  show route.HasSize (.byIndex 0) [2 * 3, 5, 0].sum
  refine .struct rfl rfl ?_
  simp only [List.zip_cons_cons, List.forall_mem_cons]
  exact ⟨.array rfl hstop, hfare, .primitive rfl rfl, List.forall_mem_nil _⟩

/-- A route whose codes are given as text and as numbers. -/
def Value.tour : Value :=
  .map [(.text "fare", .map [(.text "points", .text " -2 ")]), (.text "remark", .null),
    (.text "stops", .list [.tuple [.text "0xaB0c", .bool true],
      .list [.list [.int 1, .int 255], .text "false"]])]

theorem Encoder.length_tour :
    Schema.route.HasSize (.byIndex 0) 11 ∧ ∃ bytes,
      encode ⟨.route, .default⟩ (.int 0) .tour = .ok bytes ∧ bytes.length = 11 := by
  have hbytes : encode ⟨.route, .default⟩ (.int 0) .tour =
      .ok [0xAB, 0x0C, 1, 1, 255, 0, 7, 0xFE, 0xFF, 0xFF, 0xFF] := rfl
  obtain ⟨_, hlength⟩ := length_of_encode (e := ⟨.route, .default⟩) Schema.route_hasSize
  exact ⟨Schema.route_hasSize, _, hbytes, hlength 0 rfl ⟨0, 0⟩ _ _ (.inl hbytes)⟩

end BorshWire
