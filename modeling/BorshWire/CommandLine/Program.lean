import BorshWire.CommandLine.Arguments
import BorshWire.CommandLine.Files
import BorshWire.Schema.Catalogue
import BorshWire.Schema.Load
import BorshWire.Serializer

/-!
# The program

The command line loads a schema and prints its overview, or encodes one document and prints the
bytes in hexadecimal. Refusals are reported on the error stream; asked to, the program tells
there what it does on the way.
-/

namespace BorshWire

namespace CommandLine

/-- A failure that the program has no report for. -/
inductive Failure where
  | schema (error : SchemaError)
  | encode (error : EncodeError)
  | undecodable (error : DecodeError)
  | file (path : Text) (error : FileError)
  /-- A role was asked for without a value. -/
  | noRole

/-- The failure in words. -/
def Failure.message : Failure → Text
  | schema error => error.message
  | encode error => error.words
  | undecodable error => error.message
  | file path error => error.message path
  | noRole => "unhashable type: 'list'"

/-- What is written to a stream: a text, or the description of the usage. -/
inductive Stream where
  | text (t : Text)
  | usage

/-- How the program ends. -/
inductive Ending where
  | exit (code : Nat) (stdout stderr : Stream)
  | crash (failure : Failure)

/-- Why the work is broken off: with a report, or without. -/
inductive Stop where
  | report (line : Text)
  | crash (failure : Failure)

/-- Work that may be broken off, with the lines that it tells on the way. -/
abbrev Work (α : Type) := ExceptT Stop (StateM (List Text)) α

/-- Tells a line, if telling is asked for. -/
def tell (verbose : Bool) (logger message : Text) : Work Unit :=
  if verbose then modify (· ++ [Text.concat ["DEBUG ", logger, ": ", message]]) else pure ()

/-- The report of a refusal of some kind. -/
def report (kind : ErrorKind) (message : Text) : Text :=
  Text.concat ["Error [", kind.name, "]: ", message]

/-- Goes on with a schema, or reports why there is none. -/
def schemaOf (r : Except SchemaError Schema) : Work Schema :=
  match r with
  | .ok s => pure s
  | .error (.document .tooDeep) => throw (.crash (.schema (.document .tooDeep)))
  | .error .holdsView => throw (.crash (.schema .holdsView))
  | .error e => throw (.report (report .invalidSchema e.message))

/-- Goes on with what was encoded, or reports why nothing was. -/
def encodedOf {α : Type} (r : Except EncodeError α) : Work α :=
  match r with
  | .ok a => pure a
  | .error e =>
    match e.kind? with
    | some kind => throw (.report (report kind e.words))
    | none => throw (.crash (.encode e))

/-- The text at a path, or a report why there is none. -/
def readText (env : Surroundings) (path : Text) : Work Text :=
  match (env.entry path).read with
  | .error .nullCharacter => throw (.crash (.file path .nullCharacter))
  | .error e => throw (.report (Text.concat ["Error: ", e.message path]))
  | .ok data =>
    match textOfFile data with
    | .ok t => pure t
    | .error e => throw (.crash (.undecodable e))

/-- The line about a loaded schema. -/
def loadedLine (s : Schema) : Text :=
  let chain : Text := match s.chain with
    | some chain => chain.name
    | none => "unknown"
  Text.concat ["Loaded schema with ", Text.ofNat s.types.length, " types, ",
    Text.ofNat s.roots.length, " roles (chain: ", chain, ")"]

/-- The root index that is asked for; without a value it is an empty list. -/
def targetIndex (o : Options) (e : Encoder) : Work Value :=
  match o.type, o.role with
  | some (some index), _ => pure (.int index)
  | some none, _ => pure (.list [])
  | none, some none => throw (.crash .noRole)
  | none, some (some role) => do
    let index ← encodedOf (e.roleIndex role)
    tell o.verbose "schemaborsh.serializer"
      (Text.concat ["Resolved role ", role.name, " to type index ", Text.ofInt index])
    return .int index
  | none, none => throw (.report "Error: one of --analyze, --type or --role is required")

/-- Does the work on an existing schema file, and gives what is printed. -/
def work (env : Surroundings) (o : Options) (path : Text) : Work Text := do
  let text ← readText env path
  let s ← schemaOf (Schema.ofDocument (.text text))
  tell o.verbose "schemaborsh.models.schema" (loadedLine s)
  if o.analyze then return s.catalogue
  let e : Encoder := ⟨s, Config.default⟩
  let index ← targetIndex o e
  let document ← if o.input.isEmpty then pure env.stdin else readText env (plainPath o.input)
  let data ← encodedOf (e.encodeDocument env.stack index (.text document))
  tell o.verbose "schemaborsh.codec.encoder"
    (Text.concat ["Encoded type ", index.plain, " into ", Text.ofNat data.length, " bytes"])
  return Text.hexOfBytes data ++ [0x0A]

/-- The lines, every one ended. -/
def lines (ls : List Text) : Text := ls.flatMap fun line => line ++ [0x0A]

/-- Ends the work: what is printed, or the report, after the lines told. -/
def finish (env : Surroundings) (o : Options) (path : Text) : Ending :=
  match (work env o path).run.run [] with
  | (.ok printed, told) => .exit 0 (.text printed) (.text (lines told))
  | (.error (.report line), told) => .exit 1 (.text []) (.text (lines (told ++ [line])))
  | (.error (.crash failure), _) => .crash failure

/-- The line that tells the version. -/
def versionLine : Text := "schemaborsh 0.1.0"

/-- The program: from its arguments and surroundings to its end. -/
def run (env : Surroundings) (args : List Text) : Ending :=
  match read args with
  | .help => .exit 0 .usage (.text [])
  | .version => .exit 0 (.text (lines [versionLine])) (.text [])
  | .misuse => .exit 2 (.text []) .usage
  | .work o =>
    if o.schema.isEmpty then .exit 0 .usage (.text [])
    else
      let path := plainPath o.schema
      match (env.entry path).exists? with
      | .ok true => finish env o path
      | .ok false =>
        .exit 1 (.text []) (.text (lines [Text.concat ["Error: File not found: ", path]]))
      | .error e => .crash (.file path e)

end CommandLine

end BorshWire
