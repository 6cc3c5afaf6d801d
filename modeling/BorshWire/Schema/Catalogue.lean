import BorshWire.Schema.Basic

/-!
# Catalogues

The printed overview of a schema: its chain, the labels of its types under their indices, and
the root index of each role.
-/

namespace BorshWire

namespace Schema

/-- A text filled up with spaces on the left. -/
def padLeft (width : Nat) (t : Text) : Text := List.replicate (width - t.length) 0x20 ++ t

/-- A text filled up with points on the right, with at least one of them. -/
def dotted (t : Text) : Text := t ++ List.replicate (max 1 (40 - t.length)) 0x2E

/-- The line above a section. -/
def heading (title : String) : Text :=
  let rule : Text := List.replicate 27 0x2D
  Text.concat [rule, " ", title, " ", rule]

/-- The lines of the types. -/
def typeLines (s : Schema) : List Text :=
  let width := (Text.ofNat (s.types.length - 1)).length
  s.types.zipIdx.map fun (type, index) =>
    Text.concat [padLeft width (Text.ofNat index), ". ", type.label]

/-- The line of a role. -/
def roleLine (s : Schema) (role : Role) : Text :=
  dotted role.option ++ match s.root? role with
    | some index => Text.ofInt index
    | none => Text.ofString "(not declared)"

/-- The lines of the overview. -/
def catalogueLines (s : Schema) : List Text :=
  let count := s.types.length
  let title : List Text := [
    "||||||| schemaborsh: Schema-driven Borsh encoder |||||||",
    Text.concat [Text.ofNat count, " type", if count = 1 then [] else Text.ofString "s",
      " loaded."]]
  title ++ (match s.chain with
    | some chain => [Text.concat ["Chain: ", chain.name, " (id ", Text.ofInt chain.id, ")"]]
    | none => [])
  ++ [[], heading "Types"] ++ s.typeLines ++ [[], heading "Roles"]
  ++ Role.all.map s.roleLine ++ [[]]

/-- The overview, every line ended. -/
def catalogue (s : Schema) : Text := s.catalogueLines.flatMap fun line => line ++ [0x0A]

end Schema

end BorshWire
