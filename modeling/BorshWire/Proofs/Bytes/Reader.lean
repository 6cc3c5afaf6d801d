import BorshWire.Proofs.Bytes.LittleEndian

/-!
# Readers of bytes

A reader takes something off the front of a list of bytes and leaves the rest. `Reader.Reads` says
that certain bytes are taken whole, whatever follows them: this is kept by sequencing and by loops,
and two of the bytes that a reader takes are never the one a proper part of the front of the other
(`Reads.eq_of_isPrefix`).
-/

namespace BorshWire

/-- Takes something off the front of bytes, if it is there. -/
abbrev Reader := StateT (List UInt8) Option

namespace Reader

variable {α β : Type}

/-! ## Reading -/

/-- Takes the next byte. -/
def byte : Reader UInt8
  | [] => none
  | b :: rest => some (b, rest)

/-- Takes so many bytes. -/
def take : Nat → Reader (List UInt8)
  | 0 => pure []
  | n + 1 => do
    let b ← byte
    let data ← take n
    return b :: data

/-- Takes the four bytes of a count. -/
def count : Reader Nat := ofLittleEndian <$> take 4

/-- Reads so many things one after the other. -/
def times (x : Reader α) : Nat → Reader (List α)
  | 0 => pure []
  | n + 1 => do
    let a ← x
    let rest ← times x n
    return a :: rest

/-- Takes nothing. -/
def ofOption (a? : Option α) : Reader α := fun rest => a?.map fun a => (a, rest)

/-! ## What is taken -/

/-- Off any bytes that start with these the reader takes exactly these, and gives `a`. -/
def Reads (x : Reader α) (bytes : List UInt8) (a : α) : Prop :=
  ∀ rest, x.run (bytes ++ rest) = some (a, rest)

namespace Reads

theorem pure (a : α) : (Pure.pure a : Reader α).Reads [] a := fun _ => rfl

theorem ofOption {a? : Option α} {a : α} (h : a? = some a) : (Reader.ofOption a?).Reads [] a := by
  intro rest
  rw [h]
  rfl

theorem byte (b : UInt8) : Reader.byte.Reads [b] b := fun _ => rfl

theorem bind {x : Reader α} {f : α → Reader β} {front back : List UInt8} {a : α} {b : β}
    (hx : x.Reads front a) (hf : (f a).Reads back b) : (x >>= f).Reads (front ++ back) b := by
  intro rest
  rw [StateT.run_bind, List.append_assoc, hx]
  exact hf rest

theorem map {x : Reader α} {bytes : List UInt8} {a : α} (h : x.Reads bytes a) (f : α → β) :
    (f <$> x).Reads bytes (f a) := by
  intro rest
  rw [StateT.run_map, h]
  rfl

theorem take (data : List UInt8) : (Reader.take data.length).Reads data data := by
  induction data with
  | nil => exact pure []
  | cons b data ih => exact (byte b).bind (ih.map (b :: ·))

theorem take_of_length {n : Nat} {data : List UInt8} (h : data.length = n) :
    (Reader.take n).Reads data data := by
  rw [← h]
  exact take data

theorem count {n : Nat} (h : n < twoPow 32) : Reader.count.Reads (littleEndian 4 n) n := by
  have hread := (take_of_length (length_littleEndian 4 n)).map ofLittleEndian
  rw [ofLittleEndian_of_lt h] at hread
  exact hread

theorem mapM_cons {f : α → Reader β} {a : α} {as : List α} {front back : List UInt8} {b : β}
    {bs : List β} (ha : (f a).Reads front b) (has : (as.mapM f).Reads back bs) :
    ((a :: as).mapM f).Reads (front ++ back) (b :: bs) := by
  rw [List.mapM_cons]
  exact ha.bind (has.map (b :: ·))

theorem unique {x : Reader α} {bytes : List UInt8} {a b : α} (ha : x.Reads bytes a)
    (hb : x.Reads bytes b) : a = b :=
  (Prod.mk.inj (Option.some.inj ((ha []).symm.trans (hb [])))).1

theorem eq_of_isPrefix {x : Reader α} {front bytes : List UInt8} {a b : α}
    (ha : x.Reads front a) (hb : x.Reads bytes b) (h : front <+: bytes) : front = bytes := by
  obtain ⟨back, rfl⟩ := h
  have hboth : some (a, back) = some (b, []) := by
    rw [← ha back, ← hb [], List.append_nil]
  obtain ⟨_, rfl⟩ := Prod.mk.inj (Option.some.inj hboth)
  rw [List.append_nil]

end Reads

end Reader

end BorshWire
