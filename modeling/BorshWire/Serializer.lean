import BorshWire.Encode.Walk
import BorshWire.Json.Parser
import BorshWire.Schema.Load
import BorshWire.Value.Normal

/-!
# Serializers

An encoder with the entry points that callers use: by root index or by role, from values in
memory or from documents. Values in memory may hold byte buffers anywhere. The schema comes from a
descriptor or from the document of one.
-/

namespace BorshWire

namespace Encoder

/-- Encodes a value after its buffers are spelled out. A value that is nested too deeply for that is
refused without a kind, unlike one that is nested too deeply for the walk. -/
def serialize (e : Encoder) (stack : Stack) (index v : Value) : Except EncodeError (List UInt8) :=
  match v.normalizeWithin stack.nesting with
  | some w => e.run stack index w
  | none => .error .exhausted

/-- Encodes the value of a document, in which constants that are no numbers are refused. -/
def encodeDocument (e : Encoder) (stack : Stack) (index : Value) (doc : Document) :
    Except EncodeError (List UInt8) := do
  let v ← (doc.parse false).mapError .document
  e.run stack index v

/-- The root index of a role. -/
def roleIndex (e : Encoder) (role : Role) : Except EncodeError Int :=
  match e.schema.root? role with
  | some index => .ok index
  | none => .error (.undeclaredRole role)

/-- Encodes a value against the root type of a role. -/
def serializeRole (e : Encoder) (stack : Stack) (role : Role) (v : Value) :
    Except EncodeError (List UInt8) := do
  let index ← e.roleIndex role
  e.serialize stack (.int index) v

end Encoder

/-- The role that stands at a position, given as any number. -/
def Role.ofValue? (v : Value) : Option Role :=
  Role.all.find? fun role =>
    match v with
    | .bool b => Key.same (.bool b) (.int role.position)
    | .int n => Key.same (.int n) (.int role.position)
    | .float x => Key.same (.float x) (.int role.position)
    | _ => false

/-- Nothing stands at a position, in words. -/
def Role.unknownWords (v : Value) : Text :=
  Text.concat [v.literal, " is not a valid KnownTypeId"]

/-- Why there is no serializer: its schema is not loaded, or what is given is no source of one. -/
inductive SourceError where
  | schema (error : SchemaError)
  | unsupported (source : Value)

/-- The refusal of what is no source of a schema, in words. -/
def SourceError.words : SourceError → Text
  | schema error => error.message
  | unsupported source => Text.concat ["Unsupported schema source: ", source.className]

/-- Loads a schema from a source: a descriptor, or the document of one in a text or in bytes. -/
def Schema.ofSource (source : Value) : Except SourceError Schema :=
  match source with
  | .text t => (ofDocument (.text t)).mapError .schema
  | .buffer .frozen data => (ofDocument (.bytes data)).mapError .schema
  | source =>
    match source.mapping? with
    | some _ => (ofValue source).mapError .schema
    | none => .error (.unsupported source)

end BorshWire
