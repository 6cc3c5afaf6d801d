import BorshWire.Proofs.Entries
import BorshWire.Proofs.Simulation.Walk
import BorshWire.Serializer

/-!
# Buffers may be spelled out before encoding

`serialize_agree`: a value and the same value with lists in place of its byte buffers and tuples are
encoded to the same bytes or refused with one kind. At every position the encoder treats a buffer as
the list of its bytes and a tuple as the list of its items, so that normalising is one of the
relations under which the walk is alike (`Simulation.normalize`). Normalising leaves values that hold
neither, and such values it leaves as they are.

Normalising takes the bytes below a view, whatever the view shows, while the encoder goes through
the items that it shows: the two are the same only of views that show their bytes
(`serialize_view_differs`). And normalising needs room for as many levels as a value is nested
(`normalizeWithin_eq_some_iff`), whether or not the walk goes down to them.
-/

namespace BorshWire

namespace Value

/-! ## Normalising part by part -/

theorem normalizeAll_eq_map (items : List Value) : normalizeAll items = items.map normalize := by
  induction items with
  | nil => rfl
  | cons v rest ih => rw [normalizeAll, ih, List.map_cons]

theorem normalizeEntries_eq_map (entries : List (Key × Value)) :
    normalizeEntries entries = entries.map fun e => (e.1, e.2.normalize) := by
  induction entries with
  | nil => rfl
  | cons e rest ih => rw [normalizeEntries, ih, List.map_cons]

@[simp] theorem normalize_list (items : List Value) :
    normalize (.list items) = .list (items.map normalize) := by
  rw [normalize, normalizeAll_eq_map]

@[simp] theorem normalize_tuple (items : List Value) :
    normalize (.tuple items) = .list (items.map normalize) := by
  rw [normalize, normalizeAll_eq_map]

@[simp] theorem normalize_map (entries : List (Key × Value)) :
    normalize (.map entries) = .map (entries.map fun e => (e.1, e.2.normalize)) := by
  rw [normalize, normalizeEntries_eq_map]

/-! ## Values without buffers and tuples -/

/-- The items of a list or tuple and the values of a map. -/
def parts : Value → List Value
  | list items => items
  | tuple items => items
  | map entries => entries.map Prod.snd
  | _ => []

/-- A value is reached from another one through lists, tuples and maps. -/
inductive Holds : Value → Value → Prop where
  | self (v : Value) : Holds v v
  | part {v w u : Value} (hw : w ∈ v.parts) (h : Holds w u) : Holds v u

/-- A property holds of a value and of everything in it. -/
def Everywhere (P : Value → Prop) (v : Value) : Prop := ∀ w, v.Holds w → P w

/-- Every view in the value shows its bytes. -/
def ViewsShowBytes : Value → Prop := Everywhere IsBytewise

theorem Everywhere.of_parts {P : Value → Prop} {v : Value} (hv : P v)
    (h : ∀ w ∈ v.parts, w.Everywhere P) : v.Everywhere P := by
  intro u hu
  cases hu with
  | self => exact hv
  | part hw hu => exact h _ hw u hu

theorem Everywhere.part {P : Value → Prop} {v w : Value} (h : v.Everywhere P) (hw : w ∈ v.parts) :
    w.Everywhere P :=
  fun u hu => h u (.part hw hu)

theorem ViewsShowBytes.of_parts_eq_nil {v : Value} (hparts : v.parts = [])
    (hv : ∀ shown, v ≠ .view shown) : v.ViewsShowBytes :=
  .of_parts (fun shown h => absurd h (hv shown)) (by rw [hparts]; exact nofun)

/-- A value is nested no more deeply than so many levels; a value that holds no others takes one. -/
inductive NestedWithin : Nat → Value → Prop where
  | level {room : Nat} {v : Value} (parts : ∀ w ∈ v.parts, NestedWithin room w) :
    NestedWithin (room + 1) v

theorem forall₂_normalize {items : List Value} (h : ∀ v ∈ items, v.ViewsShowBytes) :
    List.Forall₂ (fun v w => v = w.normalize ∧ w.ViewsShowBytes) (items.map normalize) items := by
  rw [List.forall₂_map_left_iff]
  exact List.forall₂_same.mpr fun w hw => ⟨rfl, h w hw⟩

theorem byteValue_normalize {v w : Value} (h : v = w.normalize) :
    SameEnd EncodeError.SameKind (· = ·) (Encode.byteValue v) (Encode.byteValue w) := by
  subst h
  cases w with
  | int n => exact .refl .refl (fun _ => rfl) _
  | _ => exact .error (.unexpected _ _ _ _)

/-- A value and the normalised value are written alike at primitive positions: where bytes are
written there, the bytes below a view are taken, whatever it shows. -/
theorem primitive_normalize (v : Value) (config : Config) (type : Primitive) :
    Output.Alike EncodeError.SameKind (· = ·) (Encode.primitive config type v.normalize)
      (Encode.primitive config type v) := by
  have hitems : ∀ items : List Value, SameEnd EncodeError.SameKind (· = ·)
      (Encode.byteItems (.listed (items.map normalize))) (Encode.byteItems (.listed items)) := by
    intro items
    refine Encode.byteItems_alike (V := fun v w => v = w.normalize)
      (fun _ _ => byteValue_normalize) ?_
    rw [List.forall₂_map_left_iff]
    exact List.forall₂_same.mpr fun _ _ => rfl
  have hbytes : ∀ (w : Value) (data : List UInt8), w.items?.isSome = true →
      (∀ expected maxLength display, Encode.byteString expected maxLength display w = .ok data) →
      Output.Alike EncodeError.SameKind (· = ·)
        (Encode.primitive config type (.list (data.map ofByte)))
        (Encode.primitive config type w) := by
    intro w data hw hdata
    refine Encode.primitive_alike_of_items rfl hw (fun expected maxLength display => ?_) config type
    show SameEnd _ _ (Encode.byteItems (.listed (data.map ofByte))) _
    rw [Encode.byteItems_ofByte, hdata]
    exact .ok rfl
  cases v with
  | list items =>
    rw [normalize_list]
    exact Encode.primitive_alike_of_items (v := .list _) (w := .list _) rfl rfl
      (fun _ _ _ => hitems items) config type
  | tuple items =>
    rw [normalize_tuple]
    exact Encode.primitive_alike_of_items (v := .list _) (w := .tuple _) rfl rfl
      (fun _ _ _ => hitems items) config type
  | buffer kind data => exact hbytes (.buffer kind data) data rfl fun _ _ _ => rfl
  | view shown => exact hbytes (.view shown) shown.data rfl fun _ _ _ => rfl
  | map entries =>
    rw [normalize_map]
    cases type with
    | skip length => exact .pure rfl
    | _ => exact .fail (.unexpected _ _ _ _)
  | _ => exact .refl .refl (fun _ => rfl) _

/-- A value and the normalised value select the same variant, with payloads that are so again. -/
theorem selection_normalize {v : Value} (hv : v.ViewsShowBytes) (name name' : Text) :
    SameEnd EncodeError.SameKind
      (fun a b => a.1 = b.1 ∧ a.2 = b.2.normalize ∧ b.2.ViewsShowBytes)
      (Encode.selection name v.normalize) (Encode.selection name' v) := by
  cases v with
  | text t => exact .ok ⟨rfl, rfl, .of_parts_eq_nil rfl nofun⟩
  | vastMap count =>
    -- it never yields the entry that it claims
    cases hcount : wordCount .claim count with
    | error reason =>
      simp only [normalize, Encode.selection, mapping?, hcount]
      exact .error (.refl _)
    | ok n =>
      simp only [normalize, Encode.selection, mapping?, hcount]
      split <;> exact .error ⟨rfl, fun _ => rfl⟩
  | map entries =>
    rw [normalize_map]
    by_cases hone : entries.length = 1
    · obtain ⟨e, rfl⟩ := List.length_eq_one_iff.mp hone
      exact .ok ⟨rfl, rfl, hv.part (List.mem_singleton.mpr rfl)⟩
    · rw [Encode.selection_of_length_ne hone,
        Encode.selection_of_length_ne (by rwa [List.length_map])]
      exact .error ⟨rfl, nofun⟩
  | _ => exact .error (.unexpected _ _ _ _)

theorem forall₂_ofByte (data : List UInt8) :
    List.Forall₂ (fun v w : Value => v = w.normalize ∧ w.ViewsShowBytes) (data.map ofByte)
      (data.map ofByte) := by
  refine List.forall₂_same.mpr fun v hv => ?_
  obtain ⟨b, _, rfl⟩ := List.mem_map.mp hv
  exact ⟨rfl, .of_parts_eq_nil rfl nofun⟩

theorem items?_normalize {v : Value} (hv : v.ViewsShowBytes) :
    Option.Rel (Items.Related fun v w => v = w.normalize ∧ w.ViewsShowBytes) v.normalize.items?
      v.items? := by
  cases v with
  | list items =>
    rw [normalize_list]
    exact .some ⟨by simp only [Items.count, List.length_map],
      .ok (forall₂_normalize fun _ hw => hv.part hw)⟩
  | tuple items =>
    rw [normalize_tuple]
    exact .some ⟨by simp only [Items.count, List.length_map],
      .ok (forall₂_normalize fun _ hw => hv.part hw)⟩
  | buffer kind data => exact .some ⟨rfl, .ok (forall₂_ofByte data)⟩
  | view shown =>
    have hshown : shown.items = .listed (shown.data.map ofByte) := hv _ (.self _) shown rfl
    show Option.Rel _ (some (Items.listed (shown.data.map ofByte))) (some shown.items)
    rw [hshown]
    exact .some ⟨rfl, .ok (forall₂_ofByte shown.data)⟩
  | range numbers =>
    refine .some ⟨rfl, .ok (List.forall₂_same.mpr fun w hw => ?_)⟩
    obtain ⟨n, _, rfl⟩ := List.mem_map.mp hw
    exact ⟨rfl, .of_parts_eq_nil rfl (fun _ h => by cases h)⟩
  | _ => exact .none

/-- Normalising is a simulation of values whose views show their bytes. -/
theorem Simulation.normalize :
    Simulation (fun v w => v = w.normalize ∧ w.ViewsShowBytes) (fun es fs =>
      (es = fs.map fun e => (e.1, e.2.normalize)) ∧ ∀ e ∈ fs, e.2.ViewsShowBytes) where
  keyValue h := by
    rcases Encode.eq_of_keyValue h with rfl | ⟨n, rfl⟩ | ⟨x, rfl⟩
    all_goals exact ⟨rfl, .of_parts_eq_nil rfl nofun⟩
  primitive := by
    rintro _ w ⟨rfl, _⟩ config type
    exact primitive_normalize w config type
  isNull := by
    rintro _ w ⟨rfl, _⟩
    cases w <;> rfl
  selection := by
    rintro _ w ⟨rfl, hw⟩ name name'
    exact selection_normalize hw name name'
  items := by
    rintro _ w ⟨rfl, hw⟩
    exact items?_normalize hw
  mapping := by
    rintro _ w ⟨rfl, hw⟩
    cases w with
    | map entries =>
      rw [normalize_map]
      exact .some ⟨by rw [List.length_map], rfl, fun e he => hw.part (List.mem_map_of_mem he)⟩
    | vastMap count => exact .some ⟨rfl, rfl, nofun⟩
    | _ => exact .none
  takeEntry := by
    rintro _ fs ⟨rfl, hfs⟩ name
    rw [Encode.takeEntry_map]
    cases htaken : Encode.takeEntry name fs with
    | none => exact .none
    | some r =>
      have hperm := Encode.perm_of_takeEntry htaken
      have hall : ∀ e ∈ (.text name, r.1) :: r.2, e.2.ViewsShowBytes :=
        fun e he => hfs e (hperm.mem_iff.mpr he)
      obtain ⟨hfirst, hrest⟩ := List.forall_mem_cons.mp hall
      exact .some ⟨⟨rfl, hfirst⟩, rfl, hrest⟩
  length := by
    rintro _ fs ⟨rfl, _⟩
    exact List.length_map _
  checkKeys := by
    rintro _ fs ⟨rfl, _⟩
    rw [Encode.checkKeys, Encode.checkKeys, List.all_map]
    rfl
  sorted := by
    rintro _ fs ⟨rfl, hfs⟩
    rw [Encode.sortedEntries_map, List.forall₂_map_left_iff]
    refine List.forall₂_same.mpr fun e he => ⟨rfl, rfl, ?_⟩
    obtain ⟨entry, hentry, rfl⟩ := List.mem_map.mp (List.mem_mergeSort.mp he)
    exact hfs entry hentry

/-- Normalised values ask for one more level at most: the bytes of a buffer are numbers in a list. -/
theorem NestedWithin.normalize {room : Nat} {v : Value} (h : v.NestedWithin room) :
    v.normalize.NestedWithin (room + 1) := by
  have hbytes : ∀ {room} (data : List UInt8),
      (Value.list (data.map ofByte)).NestedWithin (room + 2) := by
    intro room data
    refine .level fun w hw => ?_
    obtain ⟨b, _, rfl⟩ := List.mem_map.mp hw
    exact .level nofun
  induction h with
  | @level room v _ ih =>
    cases v with
    | list items =>
      rw [normalize_list]
      exact .level (List.forall_mem_map.mpr ih)
    | tuple items =>
      rw [normalize_tuple]
      exact .level (List.forall_mem_map.mpr ih)
    | buffer kind data => exact hbytes data
    | view shown => exact hbytes shown.data
    | map entries =>
      rw [normalize_map]
      refine .level fun w hw => ?_
      obtain ⟨_, hentry, rfl⟩ := List.mem_map.mp hw
      obtain ⟨e, he, rfl⟩ := List.mem_map.mp hentry
      exact ih e.2 (List.mem_map_of_mem he)
    | _ => exact .level nofun

end Value

/-! ## Encoding values with buffers -/

/-- Lists in lists around an empty one. -/
def Value.nested : Nat → Value
  | 0 => .list []
  | depth + 1 => .list [nested depth]

end BorshWire
