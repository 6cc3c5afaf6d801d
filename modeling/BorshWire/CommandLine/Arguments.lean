import BorshWire.Number.Numeral
import BorshWire.Schema.Basic
import BorshWire.Text.DecimalDigit

/-!
# Arguments of the command line

Long options may be shortened to any start that no other option has, and take their value after
an equals sign or from the next argument; two dashes as a value stand for none. An argument that
looks like a negative number or holds a space is no option. There are no positional arguments.
-/

namespace BorshWire

namespace CommandLine

/-- The options. -/
inductive OptionName where
  | shortHelp
  | help
  | schema
  | analyze
  | type
  | role
  | input
  | verbose
  | version
  deriving DecidableEq

/-- The spellings of the options. -/
def spellings : List (Text × OptionName) :=
  [("-h", .shortHelp), ("--help", .help), ("--schema", .schema), ("--analyze", .analyze),
    ("--type", .type), ("--role", .role), ("--input", .input), ("--verbose", .verbose),
    ("--version", .version)]

/-- What an argument is taken for. -/
inductive Argument where
  | operand (t : Text)
  | option (name : OptionName) (value : Option Text)
  | unknown
  | ambiguous

/-- The option of a spelling. -/
def spelled? (t : Text) : Option OptionName := (spellings.find? fun s => s.1 = t).map (·.2)

/-- The parts before and after the first equals sign. -/
def splitValue (t : Text) : Text × Option Text :=
  let name := t.takeWhile (· != 0x3D)
  (name, if name.length < t.length then some (t.drop (name.length + 1)) else none)

/-- Digits of any script, with a line feed allowed after them. -/
def isDigits (t : Text) : Bool :=
  let t := if t.getLast? = some 0x0A then t.dropLast else t
  !t.isEmpty && t.all fun c => c.decimalValue?.isSome

/-- A minus sign before digits, or before a fraction with its point. -/
def looksNegative (t : Text) : Bool :=
  match t with
  | 0x2D :: rest =>
    isDigits rest ||
      match rest.dropWhile fun c => c.decimalValue?.isSome with
      | 0x2E :: fraction => isDigits fraction
      | _ => false
  | _ => false

/-- Two dashes: the start of a long option, and the end of the options. -/
def dashes : Text := [0x2D, 0x2D]

/-- What a shortened spelling of a long option, or a short option with more letters after it, can
mean. -/
def candidates (t : Text) : List Argument :=
  if t.take 2 = dashes then
    let (start, value) := splitValue t
    (spellings.filter fun s => start.isPrefixOf s.1).map fun s => .option s.2 value
  else if t.take 2 = "-h" then [.option .shortHelp (some (t.drop 2))]
  else []

/-- What an argument is taken for. -/
def classify (t : Text) : Argument :=
  if t.head? ≠ some 0x2D then .operand t
  else match spelled? t with
    | some name => .option name none
    | none =>
      if t.length = 1 then .operand t
      else
        let (name, value) := splitValue t
        match value, spelled? name with
        | some value, some name => .option name (some value)
        | _, _ =>
          match candidates t with
          | [argument] => argument
          | _ :: _ :: _ => .ambiguous
          | [] => if looksNegative t || t.contains 0x20 then .operand t else .unknown

/-- What was asked for. A root index and a role may have been asked for without a value. -/
structure Options where
  schema : Text := []
  analyze : Bool := false
  type : Option (Option Int) := none
  role : Option (Option Role) := none
  input : Text := []
  verbose : Bool := false

/-- The outcome of reading the arguments. -/
inductive Request where
  | help
  | version
  | misuse
  | work (options : Options)

/-- Reads the value of an option; two dashes stand for none. -/
def readValue? {α : Type} (read? : Text → Option α) (value : Text) : Option (Option α) :=
  if value = dashes then some none else (read? value).map some

/-- Takes the value of an option up; a root index and a role exclude each other. -/
def Options.take? (o : Options) (name : OptionName) (value : Text) : Option Options :=
  match name with
  | .schema => (readValue? some value).map fun t => { o with schema := t.getD [] }
  | .input => (readValue? some value).map fun t => { o with input := t.getD [] }
  | .type =>
    if o.role.isSome then none
    else (readValue? (Text.toInt? maxIntegerDigits) value).map fun n => { o with type := some n }
  | .role =>
    if o.type.isSome then none
    else
      let named? (t : Text) : Option Role := Role.all.find? fun r => r.option = t
      (readValue? named? value).map fun r => { o with role := some r }
  | _ => none

/-- The letters after the short option for help repeat it. -/
def repeatsHelp (letters : Text) : Bool := !letters.isEmpty && letters.all (· = 0x68)

/-- Goes through the arguments. What is left over is a misuse, but help or the version, asked for
before anything goes wrong, comes first. -/
def gather (o : Options) (leftOver : Bool) : List Argument → Request
  | [] => if leftOver then .misuse else .work o
  | .operand _ :: rest => gather o true rest
  | .unknown :: rest => gather o true rest
  | .ambiguous :: _ => .misuse
  | .option .shortHelp none :: _ => .help
  | .option .shortHelp (some letters) :: _ => if repeatsHelp letters then .help else .misuse
  | .option .help none :: _ => .help
  | .option .version none :: _ => .version
  | .option .analyze none :: rest => gather { o with analyze := true } leftOver rest
  | .option .verbose none :: rest => gather { o with verbose := true } leftOver rest
  | .option name (some value) :: rest =>
    match o.take? name value with
    | some o => gather o leftOver rest
    | none => .misuse
  | .option name none :: .operand value :: rest =>
    match o.take? name value with
    | some o => gather o leftOver rest
    | none => .misuse
  | .option _ none :: _ => .misuse

/-- An argument that cannot be told apart spoils them all. -/
def Argument.isAmbiguous : Argument → Bool
  | ambiguous => true
  | _ => false

/-- Reads the arguments; what follows two dashes is left over, and so are they. -/
def read (args : List Text) : Request :=
  let front := args.takeWhile (· ≠ dashes)
  let classified := front.map classify
  if classified.any Argument.isAmbiguous then .misuse
  else gather {} (decide (front.length < args.length)) classified

end CommandLine

end BorshWire
