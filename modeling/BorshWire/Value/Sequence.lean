import BorshWire.Number.Power
import BorshWire.Value.Basic

/-!
# Sequences and mappings

Encoding reads lists, tuples, ranges, byte buffers and views alike as sequences, and maps of both
sorts as mappings. A range is counted through only as far as somebody asks, and of some views
nothing but the length is seen. Ranges and maps that only claim a length can claim more than a
signed word of 64 bits holds; what is listed never does.
-/

namespace BorshWire

/-- What has a length that no signed word of 64 bits holds. -/
inductive Uncountable where
  | range
  | claim
  deriving DecidableEq

/-- The refusal in words. -/
def Uncountable.message : Uncountable → Text
  | range => "Python int too large to convert to C ssize_t"
  | claim => "cannot fit 'int' into an index-sized integer"

/-- A length, if a signed word of 64 bits holds it. -/
def wordCount (otherwise : Uncountable) (n : Nat) : Except Uncountable Nat :=
  if n < twoPow 63 then .ok n else .error otherwise

/-- The items of a sequence: listed, or the numbers of a range, or a number of items that nobody
gets to see. -/
inductive Items where
  | listed (values : List Value)
  | spaced (numbers : Progression)
  | sealed (count : Nat) (reason : Unreadable)

namespace Items

/-- The number of items. -/
def length : Items → Nat
  | listed values => values.length
  | spaced numbers => numbers.length
  | sealed count _ => count

/-- The number of items, if it can be counted. -/
def count : Items → Except Uncountable Nat
  | listed values => .ok values.length
  | spaced numbers => wordCount .range numbers.length
  | sealed count _ => .ok count

/-- The items one by one, as far as they are seen. -/
def toList : Items → List Value
  | listed values => values
  | spaced numbers => numbers.toList.map .int
  | sealed _ _ => []

/-- The items one by one, if they are seen. -/
def opened : Items → Except Unreadable (List Value)
  | sealed _ reason => .error reason
  | items => .ok items.toList

theorem toList_of_opened {items : Items} {values : List Value} (h : items.opened = .ok values) :
    items.toList = values := by
  cases items with
  | sealed count reason => cases h
  | listed _ | spaced _ => exact Except.ok.inj h

theorem opened_of_mem {items : Items} {v : Value} (h : v ∈ items.toList) :
    items.opened = .ok items.toList := by
  cases items with
  | sealed count reason => cases h
  | listed _ | spaced _ => rfl

theorem length_of_opened {items : Items} {values : List Value} (h : items.opened = .ok values) :
    items.length = values.length := by
  rw [← toList_of_opened h]
  cases items with
  | listed values => rfl
  | spaced numbers => simp [toList, length]
  | sealed count reason => cases h

theorem length_toList_le (items : Items) : items.toList.length ≤ items.length := by
  cases items with
  | listed values => exact Nat.le_refl _
  | spaced numbers => simp [toList, length]
  | sealed count reason => exact Nat.zero_le _

theorem eq_length_of_count {items : Items} {n : Nat} (h : items.count = .ok n) :
    n = items.length := by
  cases items with
  | listed values => exact (Except.ok.inj h).symm
  | spaced numbers =>
    simp only [count, wordCount] at h
    split at h
    · exact (Except.ok.inj h).symm
    · nomatch h
  | sealed count reason => exact (Except.ok.inj h).symm

end Items

/-- A byte as a number. -/
def Value.ofByte (b : UInt8) : Value := .int b.toNat

/-- How an item of a format is read from its bytes. -/
def ItemFormat.reader : ItemFormat → Except Unreadable (List UInt8 → Value)
  | integer kind _ => .ok fun own => .int (kind.ofBytes own)
  | single => .ok fun own => .float (Double.widen (BitVec.ofNat 32 (ofLittleEndian own)))
  | double => .ok fun own => .float ⟨BitVec.ofNat 64 (ofLittleEndian own)⟩
  | truth => .ok fun own => .bool (own.any (· != 0))
  | character => .ok (.buffer .frozen)
  | other name _ => .error (.format name)

namespace View

/-- The items of a view, if they are gone through. -/
def values (view : View) : Except Unreadable (List Value) := do
  let pieces ← view.pieces?
  let item ← view.format.reader
  return pieces.map item

/-- The items of a view, seen or not. -/
def items (view : View) : Items :=
  match view.values with
  | .ok values => .listed values
  | .error reason => .sealed view.length reason

theorem exists_of_mem_items {view : View} {v : Value} (h : v ∈ view.items.toList) :
    ∃ item own, view.format.reader = .ok item ∧ v = item own := by
  unfold items values at h
  cases hpieces : view.pieces? with
  | error reason =>
    rw [hpieces] at h
    cases h
  | ok pieces =>
    cases hreader : view.format.reader with
    | error reason =>
      rw [hpieces, hreader] at h
      cases h
    | ok item =>
      rw [hpieces, hreader] at h
      obtain ⟨own, _, rfl⟩ := List.mem_map.mp h
      exact ⟨item, own, rfl, rfl⟩

/-- The items of the view are its bytes. -/
def ShowsBytes (view : View) : Prop := view.items = .listed (view.data.map Value.ofByte)

end View

/-- The value is no view of other items than its bytes. -/
def Value.IsBytewise (v : Value) : Prop := ∀ shown, v = .view shown → shown.ShowsBytes

/-- The items of a sequence; a text is none. -/
def Value.items? : Value → Option Items
  | .list items => some (.listed items)
  | .tuple items => some (.listed items)
  | .buffer _ data => some (.listed (data.map Value.ofByte))
  | .view shown => some shown.items
  | .range numbers => some (.spaced numbers)
  | _ => none

/-- A mapping: the number of entries that it claims, if it can be counted, and the entries that it
yields. -/
structure Mapping where
  count : Except Uncountable Nat
  entries : List (Key × Value)

/-- The entries of a mapping. -/
def Value.mapping? : Value → Option Mapping
  | .map entries => some ⟨.ok entries.length, entries⟩
  | .vastMap count => some ⟨wordCount .claim count, []⟩
  | _ => none

end BorshWire
