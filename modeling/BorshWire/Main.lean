import BorshWire.CommandLine.Program

/-!
# The executable

Gives the program its arguments, the files that they name and the standard input, and writes what
it prints.
-/

open BorshWire

namespace BorshWire.Executable

/-- The characters of a text; what is no character is left out. -/
def stringOf (t : Text) : String :=
  String.ofList (t.filterMap fun c => if c.isSurrogate then none else some (Char.ofNat c.val))

/-- The description of the usage. -/
def usage : String :=
  "usage: schemaborsh [-h] [--schema FILE] [--analyze] [--type INDEX | --role ROLE]\n" ++
  "                   [--input FILE] [--verbose] [--version]\n"

/-- The room that the program leaves to the library. -/
def stack : Stack := ⟨290, 490⟩

/-- What is written for a stream. -/
def shown : CommandLine.Stream → String
  | .text t => stringOf t
  | .usage => usage

/-- What stands at a path; whatever is there and is no file that can be read counts as a
directory. -/
def readEntry (path : Text) : IO CommandLine.Entry := do
  if path.contains 0 then return .unreachable .nullCharacter
  try
    let data ← IO.FS.readBinFile (stringOf path)
    return .file data.toList
  catch
    | .noFileOrDirectory .. => return .unreachable .missing
    | .inappropriateType (some _) .. => return .unreachable .notDirectory
    | .invalidArgument .. => return .unreachable .nameTooLong
    | _ => return .directory

/-- The standard input as text. -/
def readInput : IO Text := do
  let data ← (← IO.getStdin).readBinToEnd
  match Text.ofUtf8 data.toList with
  | .ok t => return t
  | .error e => throw (IO.userError (stringOf e.message))

end BorshWire.Executable

open BorshWire.Executable in
/-- Runs the program once. -/
def main (args : List String) : IO UInt32 := do
  let args := args.map Text.ofString
  let options : CommandLine.Options := match CommandLine.read args with
    | .work o => o
    | _ => {}
  let schemaPath := CommandLine.plainPath options.schema
  let inputPath := CommandLine.plainPath options.input
  let schemaEntry ← readEntry schemaPath
  let inputEntry ← readEntry inputPath
  let needsInput := !options.schema.isEmpty && !options.analyze && options.input.isEmpty
  let stdin ← if needsInput then readInput else pure []
  let env : CommandLine.Surroundings :=
    ⟨fun path => if path = schemaPath then schemaEntry else inputEntry, stdin, stack⟩
  match CommandLine.run env args with
  | .exit code stdout stderr =>
    (← IO.getStdout).putStr (shown stdout)
    (← IO.getStderr).putStr (shown stderr)
    return UInt32.ofNat code
  | .crash failure =>
    (← IO.getStderr).putStrLn (stringOf failure.message)
    return 1
