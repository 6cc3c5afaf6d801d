import BorshWire.Value.Progression
import BorshWire.Value.View

/-!
# Values

What is encoded: the values of a document, and beside them the tuples, byte buffers, views of
bytes, ranges and maps with arbitrary keys that a caller can hold in memory. A map keeps its
entries in the order of insertion and holds every key once.
-/

namespace BorshWire

/-- The two classes of byte buffers that own their bytes. -/
inductive BufferKind where
  | frozen
  | growable
  deriving DecidableEq

/-- What can be the key of a map. -/
inductive Key where
  | null
  | bool (b : Bool)
  | int (n : Int)
  | float (x : Double)
  | text (t : Text)
  | bytes (data : List UInt8)
  | tuple (items : List Key)
  | range (numbers : Progression)
  deriving Inhabited

/-- A value to be encoded. A `range` is never spelled out; a `vastMap` claims a number of entries
and yields none. -/
inductive Value where
  | null
  | bool (b : Bool)
  | int (n : Int)
  | float (x : Double)
  | text (t : Text)
  | list (items : List Value)
  | tuple (items : List Value)
  | buffer (kind : BufferKind) (data : List UInt8)
  | view (shown : View)
  | range (numbers : Progression)
  | map (entries : List (Key × Value))
  | vastMap (count : Nat)
  deriving Inhabited

namespace Key

mutual

/-- Equality of keys: numbers and truth values are compared as numbers, whatever their class. -/
def same : Key → Key → Bool
  | null, null => true
  | bool a, bool b => a == b
  | bool a, int n => decide (n = if a then 1 else 0)
  | bool a, float y => decide (y.toInt? = some (if a then 1 else 0))
  | int m, bool b => decide (m = if b then 1 else 0)
  | int m, int n => decide (m = n)
  | int m, float y => decide (y.toInt? = some m)
  | float x, bool b => decide (x.toInt? = some (if b then 1 else 0))
  | float x, int n => decide (x.toInt? = some n)
  | float x, float y => x.sameNumber y
  | text s, text t => decide (s = t)
  | bytes a, bytes b => decide (a = b)
  | tuple a, tuple b => sameAll a b
  | range r, range s => r.sameItems s
  | _, _ => false

/-- Item by item equality. -/
def sameAll : List Key → List Key → Bool
  | [], [] => true
  | a :: as, b :: bs => same a b && sameAll as bs
  | _, _ => false

end

mutual

/-- The key as a value. -/
def toValue : Key → Value
  | null => .null
  | bool b => .bool b
  | int n => .int n
  | float x => .float x
  | text t => .text t
  | bytes data => .buffer .frozen data
  | tuple items => .tuple (toValues items)
  | range numbers => .range numbers

/-- The keys as values. -/
def toValues : List Key → List Value
  | [] => []
  | k :: rest => toValue k :: toValues rest

end

end Key

namespace Value

/-- Puts an entry into a map: a key that is there already keeps its place and spelling and takes
the new value. -/
def insertEntry (key : Key) (v : Value) : List (Key × Value) → List (Key × Value)
  | [] => [(key, v)]
  | (k, w) :: rest => if k.same key then (k, v) :: rest else (k, w) :: insertEntry key v rest

/-- The map of these entries, put in one after the other. -/
def mapOf (entries : List (Key × Value)) : Value :=
  .map (entries.foldl (fun m e => insertEntry e.1 e.2 m) [])

/-- The name of the value's class. -/
def className : Value → Text
  | null => "NoneType"
  | bool _ => "bool"
  | int _ => "int"
  | float _ => "float"
  | text _ => "str"
  | list _ => "list"
  | tuple _ => "tuple"
  | buffer .frozen _ => "bytes"
  | buffer .growable _ => "bytearray"
  | view _ => "memoryview"
  | range _ => "range"
  | map _ => "dict"
  | vastMap _ => "HugeMap"

/-- The value is nothing. -/
def isNull : Value → Bool
  | null => true
  | _ => false

theorem isNull_iff {v : Value} : v.isNull = true ↔ v = .null := by
  cases v <;> simp [isNull]

/-- The entry of a text key. -/
def entry? (name : Text) : List (Key × Value) → Option Value
  | [] => none
  | (.text t, v) :: rest => if t = name then some v else entry? name rest
  | _ :: rest => entry? name rest

end Value

end BorshWire
