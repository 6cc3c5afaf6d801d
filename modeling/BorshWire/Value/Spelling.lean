import BorshWire.Number.Numeral
import BorshWire.Number.Shortest
import BorshWire.Text.Quoted
import BorshWire.Value.Basic

/-!
# How messages spell a value

Two spellings. The literal one tells every class of values apart. The compact one is a JSON
document without white space; what JSON does not know becomes a text that holds its literal, and
a value that holds a map key JSON cannot write is spelled as a literal altogether. Neither exists
where an integer has more digits than are converted (`Text.spells`).
-/

namespace BorshWire

/-- The literal of a byte buffer. -/
def BufferKind.literal (kind : BufferKind) (data : List UInt8) : Text :=
  match kind with
  | frozen => Text.quotedBytes data
  | growable => Text.concat ["bytearray(", Text.quotedGrowable data, ")"]

/-- The literal of a view. Where in memory its bytes are is left out. -/
def viewLiteral : Text := "<memory>"

/-- The literal of a truth value. -/
def boolLiteral (b : Bool) : Text := if b then "True" else "False"

/-- Items between parentheses; one item alone is followed by a comma. -/
def tupleLiteral : List Text → Text
  | [t] => Text.concat ["(", t, ",)"]
  | ts => Text.concat ["(", Text.join ", " ts, ")"]

namespace Key

mutual

/-- The literal of a key. -/
def literal : Key → Text
  | null => "None"
  | bool b => boolLiteral b
  | int n => Text.ofInt n
  | float x => x.toText
  | text t => t.quoted
  | bytes data => Text.quotedBytes data
  | tuple items => tupleLiteral (literals items)
  | range numbers => numbers.literal

/-- The literals of keys. -/
def literals : List Key → List Text
  | [] => []
  | k :: rest => literal k :: literals rest

end

end Key

namespace Value

mutual

/-- The literal of a value. -/
def literal : Value → Text
  | null => "None"
  | bool b => boolLiteral b
  | int n => Text.ofInt n
  | float x => x.toText
  | text t => t.quoted
  | list items => Text.concat ["[", Text.join ", " (literals items), "]"]
  | tuple items => tupleLiteral (literals items)
  | buffer kind data => kind.literal data
  | view _ => viewLiteral
  | range numbers => numbers.literal
  | map entries => Text.concat ["\x7b", Text.join ", " (entryLiterals entries), "\x7d"]
  | vastMap count => Text.concat ["HugeMap(", Text.ofNat count, ")"]

/-- The literals of values. -/
def literals : List Value → List Text
  | [] => []
  | v :: rest => literal v :: literals rest

/-- The literals of map entries. -/
def entryLiterals : List (Key × Value) → List Text
  | [] => []
  | (k, v) :: rest => Text.concat [k.literal, ": ", literal v] :: entryLiterals rest

end

/-- A text stands for itself, anything else for its literal. -/
def plain : Value → Text
  | text t => t
  | v => v.literal

end Value

/-- A text stands for itself, any other key for its literal. -/
def Key.plain : Key → Text
  | .text t => t
  | k => k.literal

/-- A code point inside a JSON string: the quote, the backslash and the controls are escaped. -/
def CodePoint.jsonEscaped (c : CodePoint) : Text :=
  if c = 0x22 ∨ c = 0x5C then [0x5C, c]
  else if c = 0x0A then [0x5C, 0x6E]
  else if c = 0x0D then [0x5C, 0x72]
  else if c = 0x09 then [0x5C, 0x74]
  else if c = 0x08 then [0x5C, 0x62]
  else if c = 0x0C then [0x5C, 0x66]
  else if c.val < 0x20 then [0x5C, 0x75] ++ Text.hexOfNat 4 c.val
  else [c]

/-- A JSON string. -/
def Text.jsonString (t : Text) : Text := 0x22 :: t.flatMap CodePoint.jsonEscaped ++ [0x22]

/-- A number as JSON spells it, and the three words for what is no number of JSON. -/
def Double.jsonText (x : Double) : Text :=
  match x.reading with
  | .nan => "NaN"
  | .infinite negative => if negative then "-Infinity" else "Infinity"
  | .finite _ _ _ => x.toText

/-- A truth value in JSON. -/
def boolJson (b : Bool) : Text := if b then "true" else "false"

/-- The name that a key of JSON's own classes has in a JSON object. -/
def Key.jsonName? : Key → Option Text
  | .null => some "null"
  | .bool b => some (boolJson b)
  | .int n => some (Text.ofInt n)
  | .float x => some x.jsonText
  | .text t => some t
  | _ => none

namespace Value

mutual

/-- The value as a compact JSON document, unless a map in it has a key that JSON cannot write. -/
def json? : Value → Option Text
  | null => some "null"
  | bool b => some (boolJson b)
  | int n => some (Text.ofInt n)
  | float x => some x.jsonText
  | text t => some t.jsonString
  | list items => (jsons? items).map fun ts => Text.concat ["[", Text.join "," ts, "]"]
  | tuple items => (jsons? items).map fun ts => Text.concat ["[", Text.join "," ts, "]"]
  | buffer kind data => some (kind.literal data).jsonString
  | view _ => some (Text.jsonString viewLiteral)
  | range numbers => some numbers.literal.jsonString
  | map entries =>
    (entryJsons? entries).map fun ts => Text.concat ["\x7b", Text.join "," ts, "\x7d"]
  | vastMap count => some (Text.jsonString (literal (vastMap count)))

/-- The documents of values. -/
def jsons? : List Value → Option (List Text)
  | [] => some []
  | v :: rest =>
    match json? v, jsons? rest with
    | some t, some ts => some (t :: ts)
    | _, _ => none

/-- The members of a JSON object. -/
def entryJsons? : List (Key × Value) → Option (List Text)
  | [] => some []
  | (k, v) :: rest =>
    match k.jsonName?, json? v, entryJsons? rest with
    | some name, some t, some ts => some (Text.concat [name.jsonString, ":", t] :: ts)
    | _, _, _ => none

end

/-- The spelling of a value in messages. -/
def compact (v : Value) : Text := (json? v).getD v.literal

end Value

/-! ## Numbers that are spelled -/

/-- An integer is spelled in no more digits than are converted. -/
def Text.spells (n : Int) : Bool := decide (n.natAbs < tenPow maxIntegerDigits)

theorem Text.spells_of_lt {n : Int} (digits : Nat) (hn : n.natAbs < tenPow digits)
    (hdigits : digits ≤ maxIntegerDigits) : spells n = true :=
  decide_eq_true (Nat.lt_of_lt_of_le hn (tenPow_le hdigits))

theorem Text.spells_eq_false_iff {n : Int} :
    spells n = false ↔ tenPow maxIntegerDigits ≤ n.natAbs := by
  rw [spells, decide_eq_false_iff_not, Nat.not_lt]

/-- The refusal of an integer of more digits, in words. -/
def unspelledWords : Text :=
  Text.concat ["Exceeds the limit (", Text.ofNat maxIntegerDigits,
    " digits) for integer string conversion; ",
    "use sys.set_int_max_str_digits() to increase the limit"]

namespace Key

mutual

/-- The integers in the literal of a key. -/
def numbers : Key → List Int
  | int n => [n]
  | tuple items => numbersOf items
  | range r => [r.start, r.stop, r.step]
  | _ => []

/-- The integers in the literals of keys. -/
def numbersOf : List Key → List Int
  | [] => []
  | k :: rest => numbers k ++ numbersOf rest

end

end Key

namespace Value

mutual

/-- The integers in the spelling of a value. -/
def numbers : Value → List Int
  | int n => [n]
  | list items => numbersOf items
  | tuple items => numbersOf items
  | range r => [r.start, r.stop, r.step]
  | map entries => entryNumbers entries
  | vastMap count => [count]
  | _ => []

/-- The integers in the spellings of values. -/
def numbersOf : List Value → List Int
  | [] => []
  | v :: rest => numbers v ++ numbersOf rest

/-- The integers in the spellings of map entries. -/
def entryNumbers : List (Key × Value) → List Int
  | [] => []
  | (k, v) :: rest => k.numbers ++ numbers v ++ entryNumbers rest

end

end Value

end BorshWire
