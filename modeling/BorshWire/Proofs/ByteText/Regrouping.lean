import BorshWire.ByteText.Bech32
import Mathlib.Tactic.IntervalCases
import Mathlib.Tactic.Ring

/-!
# Groups of five and of eight bits

`bytesOfWords?_wordsOfBytes`: bytes that are cut into words are read back from them. The words hold
the bits of the bytes in order, and fewer than five zeros after them; whole bytes are taken out again
and the zeros are dropped. `wordsOfBytes_of_bytesOfWords?`: no other words are read as these bytes,
because the number of the zeros is fixed by that of the bits.
-/

namespace BorshWire

namespace Bech32

/-! ## Bits of numbers -/

theorem ofBits_cons (b : Bool) (bits : List Bool) :
    ofBits (b :: bits) = 2 ^ bits.length * b.toNat + ofBits bits := by
  have hfold : ∀ (bits : List Bool) (start : Nat),
      bits.foldl (fun n b => 2 * n + b.toNat) start = 2 ^ bits.length * start + ofBits bits := by
    intro bits
    induction bits with
    | nil =>
      intro start
      show start = 2 ^ 0 * start + 0
      omega
    | cons b bits ih =>
      intro start
      have hzero : ofBits (b :: bits) = 2 ^ bits.length * (2 * 0 + b.toNat) + ofBits bits := ih _
      rw [List.foldl_cons, ih, hzero, List.length_cons]
      ring
  rw [ofBits, List.foldl_cons, hfold, Nat.mul_zero, Nat.zero_add]

theorem ofBits_lt (bits : List Bool) : ofBits bits < 2 ^ bits.length := by
  induction bits with
  | nil => exact Nat.one_pos
  | cons b bits ih =>
    rw [ofBits_cons, List.length_cons, Nat.pow_succ]
    have hbit := b.toNat_le
    have hmul := Nat.mul_le_mul_left (2 ^ bits.length) hbit
    omega

@[simp] theorem ofBits_bitsOf (width n : Nat) : ofBits (bitsOf width n) = n % 2 ^ width := by
  induction width with
  | zero => rw [Nat.pow_zero, Nat.mod_one]; rfl
  | succ width ih =>
    rw [bitsOf, ofBits_cons, length_bitsOf, ih, Nat.mod_pow_succ, Nat.toNat_testBit, Nat.add_comm]

theorem bitsOf_mod {width k : Nat} (h : width ≤ k) (n : Nat) :
    bitsOf width (n % 2 ^ k) = bitsOf width n := by
  induction width with
  | zero => rfl
  | succ width ih =>
    have hlt : width < k := h
    rw [bitsOf, bitsOf, ih (Nat.le_of_succ_le h), Nat.testBit_mod_two_pow, decide_eq_true hlt,
      Bool.true_and]

theorem bitsOf_ofBits (bits : List Bool) : bitsOf bits.length (ofBits bits) = bits := by
  induction bits with
  | nil => rfl
  | cons b bits ih =>
    have hlow : (2 ^ bits.length * b.toNat + ofBits bits) % 2 ^ bits.length = ofBits bits := by
      rw [Nat.mul_add_mod, Nat.mod_eq_of_lt (ofBits_lt bits)]
    have hhigh : (2 ^ bits.length * b.toNat + ofBits bits).testBit bits.length = b := by
      rw [Nat.testBit_two_pow_mul_add _ (ofBits_lt bits), if_neg (Nat.lt_irrefl _), Nat.sub_self]
      cases b <;> rfl
    rw [List.length_cons, bitsOf, ofBits_cons, hhigh, ← bitsOf_mod (Nat.le_refl _), hlow, ih]

/-! ## Words -/

/-- The bits of words, one word after the other. -/
def bitsOfWords (words : List Word) : List Bool := words.flatMap fun w => bitsOf 5 w.toNat

/-- The bits of bytes, one byte after the other. -/
def bitsOfBytes (data : List UInt8) : List Bool := data.flatMap fun b => bitsOf 8 b.toNat

theorem bitsOf_word (bits : List Bool) (h : bits.length = 5) :
    bitsOf 5 (BitVec.ofNat 5 (ofBits bits)).toNat = bits := by
  rw [BitVec.toNat_ofNat, bitsOf_mod (Nat.le_refl 5)]
  calc bitsOf 5 (ofBits bits) = bitsOf bits.length (ofBits bits) := by rw [h]
    _ = bits := bitsOf_ofBits bits

/-- Words of bits hold these bits, and fewer than five zeros after them. -/
theorem bitsOfWords_wordsOfBits (bits : List Bool) :
    ∃ padding < 5, bitsOfWords (wordsOfBits bits) = bits ++ List.replicate padding false := by
  have hlast : ∀ last zeros : List Bool, (last ++ zeros).length = 5 →
      bitsOfWords [BitVec.ofNat 5 (ofBits (last ++ zeros))] = last ++ zeros := by
    intro last zeros h
    show bitsOf 5 _ ++ [] = _
    rw [bitsOf_word _ h, List.append_nil]
  match bits with
  | [] => exact ⟨0, by decide, rfl⟩
  | [a] => exact ⟨4, by decide, hlast [a] _ rfl⟩
  | [a, b] => exact ⟨3, by decide, hlast [a, b] _ rfl⟩
  | [a, b, c] => exact ⟨2, by decide, hlast [a, b, c] _ rfl⟩
  | [a, b, c, d] => exact ⟨1, by decide, hlast [a, b, c, d] _ rfl⟩
  | a :: b :: c :: d :: e :: rest =>
    obtain ⟨padding, hlt, hrest⟩ := bitsOfWords_wordsOfBits rest
    refine ⟨padding, hlt, ?_⟩
    show bitsOf 5 _ ++ bitsOfWords (wordsOfBits rest) = _
    rw [hrest, bitsOf_word [a, b, c, d, e] rfl]
    rfl

/-! ## Bytes -/

/-- Fewer than five zeros after whole bytes are dropped. -/
theorem bytesOfBits?_append (data : List UInt8) {padding : Nat} (h : padding < 5) :
    bytesOfBits? (bitsOfBytes data ++ List.replicate padding false) = some data := by
  induction data with
  | nil => interval_cases padding <;> rfl
  | cons b rest ih =>
    have hbyte : UInt8.ofNat (ofBits (bitsOf 8 b.toNat)) = b := by
      rw [ofBits_bitsOf, Nat.mod_eq_of_lt b.toNat_lt, UInt8.ofNat_toNat]
    show (bytesOfBits? (bitsOfBytes rest ++ List.replicate padding false)).map
      (UInt8.ofNat (ofBits (bitsOf 8 b.toNat)) :: ·) = some (b :: rest)
    rw [ih, hbyte]
    rfl

/-- Bytes are read back from their words. -/
@[simp] theorem bytesOfWords?_wordsOfBytes (data : List UInt8) :
    bytesOfWords? (wordsOfBytes data) = some data := by
  obtain ⟨padding, hlt, hbits⟩ := bitsOfWords_wordsOfBits (bitsOfBytes data)
  show bytesOfBits? (bitsOfWords (wordsOfBits (bitsOfBytes data))) = some data
  rw [hbits, bytesOfBits?_append data hlt]

/-! ## Words with one reading -/

/-- What is left after whole bytes is fewer than five zeros. -/
theorem eq_of_bytesOfBits? {bits : List Bool} {data : List UInt8}
    (h : bytesOfBits? bits = some data) :
    ∃ padding < 5, bits = bitsOfBytes data ++ List.replicate padding false := by
  fun_induction bytesOfBits? bits generalizing data with
  | case1 a b c d e f g i rest ih =>
    obtain ⟨tail, htail, rfl⟩ := Option.map_eq_some_iff.mp h
    obtain ⟨padding, hlt, rfl⟩ := ih htail
    refine ⟨padding, hlt, ?_⟩
    have hlast := ofBits_lt [a, b, c, d, e, f, g, i]
    have hbyte : bitsOf 8 (UInt8.ofNat (ofBits [a, b, c, d, e, f, g, i])).toNat =
        [a, b, c, d, e, f, g, i] := by
      rw [UInt8.toNat_ofNat', bitsOf_mod (Nat.le_refl 8)]
      exact bitsOf_ofBits [a, b, c, d, e, f, g, i]
    show _ = bitsOf 8 _ ++ bitsOfBytes tail ++ _
    rw [hbyte, List.append_assoc]
    rfl
  | case2 bits _ hshort =>
    obtain rfl := Option.some.inj h
    refine ⟨bits.length, hshort.1, ?_⟩
    show bits = [] ++ _
    rw [List.nil_append, List.eq_replicate_iff]
    refine ⟨rfl, fun b hb => ?_⟩
    simpa using List.all_eq_true.mp hshort.2 b hb
  | case3 => cases h

@[simp] theorem length_bitsOfWords (words : List Word) :
    (bitsOfWords words).length = 5 * words.length := by
  induction words with
  | nil => rfl
  | cons w rest ih =>
    show (bitsOf 5 w.toNat ++ bitsOfWords rest).length = 5 * (rest.length + 1)
    simp [ih]
    omega

theorem wordsOfBits_bitsOfWords (words : List Word) : wordsOfBits (bitsOfWords words) = words := by
  induction words with
  | nil => rfl
  | cons w rest ih =>
    show BitVec.ofNat 5 (ofBits (bitsOf 5 w.toNat)) :: wordsOfBits (bitsOfWords rest) = w :: rest
    rw [ofBits_bitsOf, Nat.mod_eq_of_lt w.isLt, BitVec.ofNat_toNat, BitVec.setWidth_eq, ih]

/-- Bits that fewer than five zeros fill up to the bits of words have just these words. -/
theorem wordsOfBits_eq {words : List Word} {bits : List Bool} {padding : Nat} (hlt : padding < 5)
    (h : bitsOfWords words = bits ++ List.replicate padding false) : wordsOfBits bits = words := by
  obtain ⟨padding', hlt', h'⟩ := bitsOfWords_wordsOfBits bits
  have hlength := congrArg List.length h
  have hlength' := congrArg List.length h'
  rw [length_bitsOfWords, List.length_append, List.length_replicate] at hlength hlength'
  obtain rfl : padding = padding' := by omega
  rw [← wordsOfBits_bitsOfWords (wordsOfBits bits), h', ← h, wordsOfBits_bitsOfWords]

/-- Words that are read as bytes are the words of these bytes. -/
theorem wordsOfBytes_of_bytesOfWords? {words : List Word} {data : List UInt8}
    (h : bytesOfWords? words = some data) : wordsOfBytes data = words := by
  obtain ⟨padding, hlt, hbits⟩ := eq_of_bytesOfBits? h
  exact wordsOfBits_eq hlt hbits

end Bech32

end BorshWire
