import BorshWire.Value.Sequence

/-!
# Values without buffers

Normalising spells every byte buffer and the bytes below every view out as a list, and every tuple
as a list. Keys of maps, ranges and scalars stay as they are. It goes down into lists, tuples and
maps, and it ends without a result in a value that is nested more deeply than there is room for.
-/

namespace BorshWire

namespace Value

mutual

/-- The value with lists in place of buffers and tuples. -/
def normalize : Value → Value
  | list items => .list (normalizeAll items)
  | tuple items => .list (normalizeAll items)
  | buffer _ data => .list (data.map ofByte)
  | view shown => .list (shown.data.map ofByte)
  | map entries => .map (normalizeEntries entries)
  | v => v

/-- The items, each without buffers. -/
def normalizeAll : List Value → List Value
  | [] => []
  | v :: rest => normalize v :: normalizeAll rest

/-- The entries, each with a value without buffers. -/
def normalizeEntries : List (Key × Value) → List (Key × Value)
  | [] => []
  | (k, v) :: rest => (k, normalize v) :: normalizeEntries rest

end

/-- The value with lists in place of buffers and tuples, if it is nested no more deeply than so many
levels, a value that holds no others taking one. -/
def normalizeWithin : Nat → Value → Option Value
  | 0, _ => none
  | room + 1, v =>
    match v with
    | list items => (items.mapM (normalizeWithin room)).map .list
    | tuple items => (items.mapM (normalizeWithin room)).map .list
    | map entries =>
      (entries.mapM fun e => (normalizeWithin room e.2).map fun w => (e.1, w)).map .map
    | v => some v.normalize

end Value

end BorshWire
