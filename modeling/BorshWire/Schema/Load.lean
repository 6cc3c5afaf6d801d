import BorshWire.Descriptor.Reader
import BorshWire.Json.Parser

/-!
# Loading schemas

A schema comes from a descriptor value or from the document of one. In documents of descriptors
`NaN` and the infinities are numbers. A schema keeps a copy of its descriptor, so that a
descriptor that holds a view of somebody else's bytes is refused in the end.
-/

namespace BorshWire

/-- Why a schema is not loaded. -/
inductive SchemaError where
  | notObject (className : Text)
  | invalid (first : Descriptor.Issue) (more : List Descriptor.Issue)
  | document (fault : Json.Fault)
  | holdsView

/-- The refusal in words. -/
def SchemaError.message : SchemaError → Text
  | notObject className =>
    Text.concat ["Schema descriptor must be a JSON object, got ", className]
  | invalid first more => Descriptor.issuesMessage first more
  | document fault => Text.concat ["Schema descriptor is not valid JSON: ", fault.message]
  | holdsView => "cannot pickle memoryview objects"

namespace Value

mutual

/-- A view of bytes stands somewhere in the value. -/
def holdsView : Value → Bool
  | list items => anyHoldsView items
  | tuple items => anyHoldsView items
  | view _ => true
  | map entries => entriesHoldView entries
  | _ => false

/-- A view of bytes stands somewhere in the items. -/
def anyHoldsView : List Value → Bool
  | [] => false
  | v :: rest => holdsView v || anyHoldsView rest

/-- A view of bytes stands somewhere in the values of entries. -/
def entriesHoldView : List (Key × Value) → Bool
  | [] => false
  | (_, v) :: rest => holdsView v || entriesHoldView rest

end

end Value

namespace Schema

/-- Loads a schema from a descriptor. -/
def ofValue (v : Value) : Except SchemaError Schema :=
  match v.mapping? with
  | none => .error (.notObject v.className)
  | some m =>
    match Descriptor.schema m.entries with
    | .sound s => if v.holdsView then .error .holdsView else .ok s
    | .faulty first more => .error (.invalid first more)

/-- Loads a schema from the document of a descriptor. -/
def ofDocument (doc : Document) : Except SchemaError Schema :=
  match doc.parse true with
  | .error fault => .error (.document fault)
  | .ok v => ofValue v

end Schema

end BorshWire
