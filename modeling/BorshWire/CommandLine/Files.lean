import BorshWire.Config
import BorshWire.Text.Encoding
import BorshWire.Text.Quoted

/-!
# Files

What the program sees of its surroundings: what stands at a path, and the text of a file. A path
is brought into its plain form first. A tree of files in memory can take the place of a disk.
-/

namespace BorshWire

namespace CommandLine

/-- The parts of a path between its slashes, but for empty ones and those of a single point. -/
def pathParts (t : Text) : List Text :=
  (Text.splitOn 0x2F t).filter fun p => !p.isEmpty && p ≠ [0x2E]

/-- The plain form of a path: its parts. Two slashes at the start are kept, more are one. -/
def plainPath (t : Text) : Text :=
  let slashes := (t.takeWhile (· = 0x2F)).length
  let root : Text := if slashes = 0 then [] else if slashes = 2 then [0x2F, 0x2F] else [0x2F]
  let path := root ++ Text.join [0x2F] (pathParts t)
  if path.isEmpty then [0x2E] else path

/-- Why a path is not read. -/
inductive FileError where
  | isDirectory
  | missing
  | notDirectory
  | nameTooLong
  /-- The path holds a null character, so that it is no path at all. -/
  | nullCharacter
  deriving DecidableEq

/-- The refusal in words. -/
def FileError.message (path : Text) : FileError → Text
  | isDirectory => Text.concat ["[Errno 21] Is a directory: ", path.quoted]
  | missing => Text.concat ["[Errno 2] No such file or directory: ", path.quoted]
  | notDirectory => Text.concat ["[Errno 20] Not a directory: ", path.quoted]
  | nameTooLong => Text.concat ["[Errno 36] File name too long: ", path.quoted]
  | nullCharacter => "embedded null byte"

/-- What stands at a path. -/
inductive Entry where
  | file (data : List UInt8)
  | directory
  | unreachable (reason : FileError)

namespace Entry

/-- Something is there; of a name that is too long nobody can tell. -/
def exists? : Entry → Except FileError Bool
  | file _ => .ok true
  | directory => .ok true
  | unreachable .nameTooLong => .error .nameTooLong
  | unreachable _ => .ok false

/-- The bytes at a path. -/
def read : Entry → Except FileError (List UInt8)
  | file data => .ok data
  | directory => .error .isDirectory
  | unreachable reason => .error reason

end Entry

/-! ## Trees in memory -/

/-- A tree of files: entries at the parts of their paths from the root. What stands above an entry
is a directory. -/
abbrev Tree := List (List Text × Entry)

/-- The most bytes of one part of a path. -/
def maxPartBytes : Nat := 255

/-- The most bytes of a path. -/
def maxPathBytes : Nat := 4095

/-- The number of bytes that a name takes. -/
def nameBytes (t : Text) : Nat := (t.flatMap CodePoint.utf8).length

namespace Tree

/-- What stands at a place. -/
def lookup (tree : Tree) (place : List Text) : Entry :=
  match tree.find? fun e => e.1 = place with
  | some e => e.2
  | none =>
    if place.isEmpty || tree.any fun e => place.isPrefixOf e.1 then .directory
    else .unreachable .missing

/-- Goes on from a place part by part; two points lead one level up. -/
def walk (tree : Tree) (place : List Text) : List Text → Entry
  | [] => tree.lookup place
  | part :: rest =>
    match tree.lookup place with
    | .directory =>
      if part = [0x2E, 0x2E] then walk tree place.dropLast rest
      else if maxPartBytes < nameBytes part then .unreachable .nameTooLong
      else walk tree (place ++ [part]) rest
    | .file _ => .unreachable .notDirectory
    | missing => missing

/-- What stands at a path, seen from a directory. -/
def entry (tree : Tree) (here : List Text) (path : Text) : Entry :=
  if path.contains 0 then .unreachable .nullCharacter
  else if maxPathBytes < nameBytes path then .unreachable .nameTooLong
  else tree.walk (if path.head? = some 0x2F then [] else here) (pathParts path)

end Tree

/-! ## Surroundings -/

/-- Line ends of two characters, and carriage returns alone, become line feeds. -/
def plainLines : Text → Text
  | [] => []
  | 0x0D :: 0x0A :: rest => 0x0A :: plainLines rest
  | c :: rest => (if c = 0x0D then 0x0A else c) :: plainLines rest

/-- The text of a file. -/
def textOfFile (data : List UInt8) : Except DecodeError Text := plainLines <$> Text.ofUtf8 data

/-- What the program sees of its surroundings. -/
structure Surroundings where
  entry : Text → Entry
  stdin : Text
  stack : Stack

end CommandLine

end BorshWire
