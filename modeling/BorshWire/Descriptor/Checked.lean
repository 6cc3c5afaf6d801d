import BorshWire.Text.Basic

/-!
# Checked parts

The parts of a descriptor are checked independently of each other, so that all faults are
counted; the first one in the order of the fields is told.
-/

namespace BorshWire

namespace Descriptor

/-- One step from a part of a descriptor to a part of it. -/
inductive Step where
  | member (name : Text)
  | position (n : Nat)

/-- What is wrong with a part. -/
inductive Complaint where
  | missing
  | notInteger
  | unreadableInteger
  | fractionalInteger
  | notFinite
  | oversizedInteger
  | belowMinimum (least : Nat)
  | aboveMaximum (greatest : Nat)
  | notText
  | brokenText
  | notBool
  | unreadableBool
  | notList
  | notObject
  | notModel (name : Text)
  | notAmong (choices : List Text)
  | noTag
  | unknownTag (tag : Text) (expected : List Text)
  | refused (reason : Text)

/-- A complaint and the part that it is about. -/
structure Issue where
  path : List Step
  complaint : Complaint

/-- Puts a step before the path of an issue. -/
def Issue.under (step : Step) (i : Issue) : Issue := ⟨step :: i.path, i.complaint⟩

/-- The outcome of checking a part. -/
inductive Checked (α : Type) where
  | sound (part : α)
  | faulty (first : Issue) (more : List Issue)

namespace Checked

variable {α β : Type}

/-- A single complaint about the part itself. -/
def complain (c : Complaint) : Checked α := faulty ⟨[], c⟩ []

/-- Applies a function to a sound part. -/
def map (f : α → β) : Checked α → Checked β
  | sound a => sound (f a)
  | faulty first more => faulty first more

/-- Joins two parts: what is wrong with the first comes before what is wrong with the second. -/
def both : Checked (α → β) → Checked α → Checked β
  | sound f, sound a => sound (f a)
  | sound _, faulty first more => faulty first more
  | faulty first more, sound _ => faulty first more
  | faulty first more, faulty second rest => faulty first (more ++ second :: rest)

instance : Applicative Checked where
  pure := sound
  map := map
  seq f a := both f (a ())

/-- Goes on to check a part that is sound so far. -/
def andThen (f : α → Checked β) : Checked α → Checked β
  | sound a => f a
  | faulty first more => faulty first more

/-- The part under a step of a larger one. -/
def under (step : Step) : Checked α → Checked α
  | sound a => sound a
  | faulty first more => faulty (Issue.under step first) (more.map (Issue.under step))

/-- All of a list, every item under its position. -/
def all (check : α → Checked β) (position : Nat) : List α → Checked (List β)
  | [] => sound []
  | a :: rest =>
    List.cons <$> (check a).under (.position position) <*> all check (position + 1) rest

end Checked

/-- The choices between quotes, the last after `or`. -/
def listChoices : List Text → Text
  | [] => []
  | [t] => Text.concat ["'", t, "'"]
  | [t, u] => Text.concat ["'", t, "' or '", u, "'"]
  | t :: rest => Text.concat ["'", t, "', ", listChoices rest]

/-- A complaint in words. -/
def Complaint.message : Complaint → Text
  | missing => "Field required"
  | notInteger => "Input should be a valid integer"
  | unreadableInteger =>
    "Input should be a valid integer, unable to parse string as an integer"
  | fractionalInteger => "Input should be a valid integer, got a number with a fractional part"
  | notFinite => "Input should be a finite number"
  | oversizedInteger => "Unable to parse input string as an integer, exceeded maximum size"
  | belowMinimum least =>
    Text.concat ["Input should be greater than or equal to ", Text.ofNat least]
  | aboveMaximum greatest =>
    Text.concat ["Input should be less than or equal to ", Text.ofNat greatest]
  | notText => "Input should be a valid string"
  | brokenText =>
    "Input should be a valid string, unable to parse raw data as a unicode string"
  | notBool => "Input should be a valid boolean"
  | unreadableBool => "Input should be a valid boolean, unable to interpret input"
  | notList => "Input should be a valid tuple"
  | notObject => "Input should be a valid dictionary"
  | notModel name =>
    Text.concat ["Input should be a valid dictionary or instance of ", name]
  | notAmong choices => Text.concat ["Input should be ", listChoices choices]
  | noTag => "Unable to extract tag using discriminator _external_tag()"
  | unknownTag tag expected =>
    Text.concat ["Input tag '", tag,
      "' found using _external_tag() does not match any of the expected tags: ",
      Text.join ", " (expected.map fun t => Text.concat ["'", t, "'"])]
  | refused reason => Text.concat ["Value error, ", reason]

/-- A path with points between its steps. -/
def pathText (path : List Step) : Text :=
  Text.join "." (path.map fun
    | .member name => name
    | .position n => Text.ofNat n)

/-- The first issue in words, and how many more there are. -/
def issuesMessage (first : Issue) (more : List Issue) : Text :=
  let head := match first.complaint with
    | .missing =>
      Text.concat ["Schema descriptor is missing required field `", pathText first.path,
        "`"]
    | c =>
      Text.concat ["Invalid schema descriptor at `", pathText first.path, "`: ", c.message]
  if more.isEmpty then head
  else Text.concat [head, " (and ", Text.ofNat more.length, " more errors)"]

end Descriptor

end BorshWire
