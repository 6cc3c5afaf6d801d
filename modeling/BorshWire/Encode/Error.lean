import BorshWire.ByteText.Error
import BorshWire.Schema.Basic
import BorshWire.Wire.Write

/-!
# Refused values

Why a value is not encoded. Every refusal has a kind out of a fixed vocabulary, but for the few
that no value of a document leads to or that concern the size of a number in text. What is reported
is the kind and the refusal in words, where no number in them is too long to be spelled.
-/

namespace BorshWire

/-- The vocabulary of refusals. -/
inductive ErrorKind where
  | invalidType
  | missingType
  | unusedInput
  | malformedEnum
  | invalidDiscriminant
  | wrongArrayLength
  | invalidVecLength
  | unresolvedType
  | json
  | missingMetadata
  | invalidIndex
  | outOfRange
  | byteDisplay
  | recursionLimit
  | invalidSchema
  deriving DecidableEq

/-- The word for a kind. -/
def ErrorKind.name : ErrorKind → Text
  | invalidType => "InvalidType"
  | missingType => "MissingType"
  | unusedInput => "UnusedInput"
  | malformedEnum => "MalformedEnum"
  | invalidDiscriminant => "InvalidDiscriminant"
  | wrongArrayLength => "WrongArrayLength"
  | invalidVecLength => "InvalidVecLength"
  | unresolvedType => "UnresolvedType"
  | json => "Json"
  | missingMetadata => "MissingMetadata"
  | invalidIndex => "InvalidIndex"
  | outOfRange => "OutOfRange"
  | byteDisplay => "ByteDisplay"
  | recursionLimit => "RecursionLimit"
  | invalidSchema => "InvalidSchema"

/-- Why a value is not encoded. -/
inductive EncodeError where
  | unexpected (expected : Text) (found : Value)
  | missingField (container field : Text)
  | missingPayload (container variant : Text)
  | unused (found : Value)
  | notSingleVariant (count : Nat)
  /-- A mapping that claims one entry and yields none. -/
  | noVariant
  | unknownVariant (name : Key) (container : Text)
  | wrongLength (expected actual : Nat)
  | tooMany (count : Nat)
  | uncountable (reason : Uncountable)
  | unreadable (reason : Unreadable)
  /-- A map key with an integer of more digits than are converted. -/
  | unspelledKey
  /-- A value that is nested more deeply than there is room to normalise. -/
  | exhausted
  | invalidRoot (index : Value)
  | undeclaredRole (role : Role)
  | unresolved (reason : Schema.Unresolved)
  | notNumberKey (key : Text)
  | document (fault : Json.Fault)
  | noNames (container : Text)
  | tooFewNames (container : Text) (names fields : Nat)
  | byteText (error : ByteTextError)
  | tooDeep (maxDepth : Nat)
  | write (error : WriteError)

/-- The kind of a refused write. -/
def WriteError.kind? : WriteError → Option ErrorKind
  | outOfRange _ _ => some .outOfRange
  | loneSurrogate => some .invalidType
  | _ => none

/-- What is reported under a kind: the words, unless a number in them is too long to be spelled. -/
def reported (kind? : Option ErrorKind) (words : Text) (numbers : List Int) :
    Option (ErrorKind × Text) :=
  match kind? with
  | some kind => if numbers.all Text.spells then some (kind, words) else none
  | none => none

/-- What is reported of a refused write, if anything is. -/
def WriteError.report? (err : WriteError) : Option (ErrorKind × Text) :=
  reported err.kind? err.words err.numbers

/-- The kind of a refused byte text. -/
def ByteTextError.kind? : ByteTextError → Option ErrorKind
  | digitLimit _ => none
  | _ => some .byteDisplay

/-- A document that nests too deeply for its reader has no kind. -/
def Json.Fault.isTooDeep : Json.Fault → Bool
  | tooDeep => true
  | _ => false

namespace EncodeError

/-- The kind of a refusal. -/
def kind? : EncodeError → Option ErrorKind
  | unexpected _ _ => some .invalidType
  | missingField _ _ => some .missingType
  | missingPayload _ _ => some .missingType
  | unused _ => some .unusedInput
  | notSingleVariant _ => some .malformedEnum
  | noVariant => none
  | unknownVariant _ _ => some .invalidDiscriminant
  | wrongLength _ _ => some .wrongArrayLength
  | tooMany _ => some .invalidVecLength
  | uncountable _ => none
  | unreadable _ => none
  | unspelledKey => none
  | exhausted => none
  | invalidRoot _ => some .invalidIndex
  | undeclaredRole _ => some .invalidIndex
  | unresolved _ => some .unresolvedType
  | notNumberKey _ => some .json
  | document fault => if fault.isTooDeep then none else some .json
  | noNames _ => some .missingMetadata
  | tooFewNames _ _ _ => some .missingMetadata
  | byteText error => error.kind?
  | tooDeep _ => some .recursionLimit
  | write error => error.kind?

end EncodeError

/-- A link without a type, in words. -/
def Schema.Unresolved.words : Schema.Unresolved → Text
  | dangling index => Text.concat ["Invalid type index: ", Text.ofNat index]
  | placeholder => "Unresolved placeholder link: Placeholder"
  | indexedPlaceholder index =>
    Text.concat ["Unresolved placeholder link: \x7b\"IndexedPlaceholder\": ", Text.ofInt index,
      "\x7d"]

/-- The numbers in these words. -/
def Schema.Unresolved.numbers : Schema.Unresolved → List Int
  | dangling index => [index]
  | placeholder => []
  | indexedPlaceholder index => [index]

namespace EncodeError

/-- The refusal in words, however long the numbers in them are. -/
def words : EncodeError → Text
  | unexpected expected found =>
    Text.concat ["Expected ", expected, ", encountered invalid JSON value ", found.compact]
  | missingField container field =>
    Text.concat ["Expected type or field ", container, ".", field, ", but it was not present"]
  | missingPayload container variant =>
    Text.concat ["Expected type or field ", container, ".", variant,
      " data, but it was not present"]
  | unused found =>
    Text.concat ["The JSON contained an unexpected extra value: ", found.compact]
  | notSingleVariant count =>
    Text.concat ["Invalid enum encoding: expected single variant, found object with ",
      Text.ofNat count, " JSON properties"]
  | noVariant => "not enough values to unpack (expected 1, got 0)"
  | unknownVariant name container =>
    Text.concat ["Invalid discriminant `", name.plain, "` for ", container]
  | wrongLength expected actual =>
    Text.concat ["Expected an array of size ", Text.ofNat expected, ", but only found ",
      Text.ofNat actual, " elements in the JSON"]
  | tooMany count =>
    Text.concat ["Only array sizes that fit into u32 are supported; input contained size ",
      Text.ofNat count]
  | uncountable reason => reason.message
  | unreadable reason => reason.message
  | unspelledKey => unspelledWords
  | exhausted => "maximum recursion depth exceeded"
  | invalidRoot index => Text.concat ["Invalid type index: ", index.plain]
  | undeclaredRole role =>
    Text.concat ["Schema does not declare a root type for ", role.name]
  | unresolved reason => reason.words
  | notNumberKey key => Text.concat ["Invalid JSON: ", key]
  | document fault => Text.concat ["Invalid JSON: ", fault.message]
  | noNames container =>
    Text.concat ["Type ", container, " did not have serde metadata present in the schema"]
  | tooFewNames container names fields =>
    Text.concat ["Type ", container, " serde metadata lists ", Text.ofNat names,
      " fields but the schema declares ", Text.ofNat fields]
  | byteText error => error.message
  | tooDeep maxDepth =>
    Text.concat ["Maximum nesting depth of ", Text.ofNat maxDepth,
      " exceeded; the schema may contain a reference cycle"]
  | write error => error.words

/-- The numbers in these words, but for those that count what is there: no memory holds enough for
one of these to be too long. -/
def numbers : EncodeError → List Int
  | unexpected _ found => found.numbers
  | unused found => found.numbers
  | unknownVariant name _ => name.numbers
  | wrongLength expected _ => [expected]
  | invalidRoot index => index.numbers
  | unresolved reason => reason.numbers
  | tooDeep maxDepth => [maxDepth]
  | write error => error.numbers
  | _ => []

/-- What is reported of a refusal: its kind, and the refusal in words. Where there is no kind, or a
number in the words is too long, a bare error is raised instead. -/
def report? (err : EncodeError) : Option (ErrorKind × Text) :=
  reported err.kind? err.words err.numbers

end EncodeError

end BorshWire
