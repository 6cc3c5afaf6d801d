import BorshWire.Main
import BorshWire.Wire.Writer
import BorshWire.Proofs.Buffers
import BorshWire.Proofs.ByteSequences
import BorshWire.Proofs.ByteText.Grammars
import BorshWire.Proofs.ByteText.Readable
import BorshWire.Proofs.ByteText.Substitution
import BorshWire.Proofs.CommandLine.FrontEnd
import BorshWire.Proofs.Context
import BorshWire.Proofs.Decoding.RoundTrip
import BorshWire.Proofs.DepthLimit
import BorshWire.Proofs.Descriptor.RoundTrip
import BorshWire.Proofs.FixedSize
import BorshWire.Proofs.FloatWrites
import BorshWire.Proofs.IntegerPositions
import BorshWire.Proofs.IntegerText
import BorshWire.Proofs.MapKeys
import BorshWire.Proofs.MemberOrder
import BorshWire.Proofs.NumericKeys
import BorshWire.Proofs.Payloads
import BorshWire.Proofs.Reference.Agreement
import BorshWire.Proofs.Refusal.Provenance
import BorshWire.Proofs.Refusal.Shallow
import BorshWire.Proofs.Refusal.Vocabulary
import BorshWire.Proofs.Refusal.WellFormed
import BorshWire.Proofs.StringKeys
import BorshWire.Proofs.StructFields
import BorshWire.Proofs.VariantNames
import BorshWire.Proofs.Writer.Runs
