import BorshWire.Proofs.ByteText.Checksum
import BorshWire.Proofs.ByteText.Parse
import BorshWire.Proofs.ByteText.Regrouping
import BorshWire.Proofs.Text.Case
import BorshWire.Proofs.Text.Decimal

/-!
# Byte texts are read back

`parse_render`: a byte string is read back from the text that it is written as, under every display.
Checksummed texts have to be within the length limit, and their human-readable part in lower case;
that it may hold a `1` does no harm, because none of the characters after the separator is one.
-/

namespace BorshWire

/-! ## Texts taken apart -/

namespace Text

theorem dropStart?_append (start t : Text) : (start ++ t).dropStart? start = some t := by
  have hstart : start.isPrefixOf (start ++ t) = true :=
    List.isPrefixOf_iff_prefix.mpr (List.prefix_append start t)
  rw [dropStart?, if_pos hstart, List.drop_left]

theorem strip_append {lead t : Text} (hlead : ∀ c ∈ lead, c.isBlank = true)
    (ht : ∀ c ∈ t, c.isBlank = false) : (lead ++ t).strip = t := by
  have htrim := trim_append hlead ht (List.forall_mem_nil _)
  rwa [List.append_nil] at htrim

theorem strip_between {first last : CodePoint} (hfirst : first.isBlank = false)
    (hlast : last.isBlank = false) (body : Text) :
    strip (first :: (body ++ [last])) = first :: (body ++ [last]) := by
  have hreverse : (first :: (body ++ [last])).reverse = last :: (first :: body).reverse := by
    rw [← List.cons_append, List.reverse_append]
    rfl
  rw [strip, trim, List.dropWhile_cons_of_neg (Bool.not_eq_true _ ▸ hfirst), hreverse,
    List.dropWhile_cons_of_neg (Bool.not_eq_true _ ▸ hlast), ← hreverse, List.reverse_reverse]

theorem strip_ne_nil {t : Text} {c : CodePoint} (hmem : c ∈ t) (hc : c.isBlank = false) :
    t.strip ≠ [] := by
  intro hnil
  have hrest : ∀ d ∈ t.dropWhile CodePoint.isBlank, d.isBlank = true := by
    have hdrop := List.dropWhile_eq_nil_iff.mp (List.reverse_eq_nil_iff.mp hnil)
    exact fun d hd => hdrop d (List.mem_reverse.mpr hd)
  rw [← List.takeWhile_append_dropWhile (p := CodePoint.isBlank) (l := t)] at hmem
  have hblank : c.isBlank = true := by
    rcases List.mem_append.mp hmem with h | h
    · exact List.mem_takeWhile_imp h
    · exact hrest c h
  rw [hc] at hblank
  cases hblank

theorem splitOn_of_not_mem {separator : CodePoint} {piece : Text} (h : separator ∉ piece) :
    splitOn separator piece = [piece] := by
  induction piece with
  | nil => rfl
  | cons c rest ih =>
    have hc : c ≠ separator := fun hc => h (hc ▸ List.mem_cons_self)
    rw [splitOn, if_neg hc, ih fun hmem => h (List.mem_cons_of_mem _ hmem)]

theorem splitOn_append {separator : CodePoint} {piece : Text} (h : separator ∉ piece) (t : Text) :
    splitOn separator (piece ++ separator :: t) = piece :: splitOn separator t := by
  induction piece with
  | nil => exact if_pos rfl
  | cons c rest ih =>
    have hc : c ≠ separator := fun hc => h (hc ▸ List.mem_cons_self)
    rw [List.cons_append, splitOn, if_neg hc, ih fun hmem => h (List.mem_cons_of_mem _ hmem)]

theorem mem_join_cons {separator t : Text} {rest : List Text} {c : CodePoint} (h : c ∈ t) :
    c ∈ join separator (t :: rest) := by
  cases rest with
  | nil => exact h
  | cons t' rest => exact List.mem_append_left _ (List.mem_append_left _ h)

end Text

/-! ## Hexadecimal -/

theorem CodePoint.hexValue?_hexDigit : ∀ n < 16, (hexDigit n).hexValue? = some n := by decide

namespace Text

theorem hexOfBytes_cons (b : UInt8) (rest : List UInt8) :
    hexOfBytes (b :: rest) = CodePoint.hexDigit (b.toNat / 16 % 16) ::
      CodePoint.hexDigit (b.toNat % 16) :: hexOfBytes rest := rfl

theorem bytesOfHex?_hexOfBytes (data : List UInt8) :
    bytesOfHex? (hexOfBytes data) = some data := by
  induction data with
  | nil => rfl
  | cons b rest ih =>
    have hlt := b.toNat_lt
    have hbyte : 16 * (b.toNat / 16 % 16) + b.toNat % 16 = b.toNat := by omega
    rw [hexOfBytes_cons, bytesOfHex?,
      CodePoint.hexValue?_hexDigit _ (Nat.mod_lt _ (by decide)),
      CodePoint.hexValue?_hexDigit _ (Nat.mod_lt _ (by decide)), ih]
    show some (UInt8.ofNat (16 * (b.toNat / 16 % 16) + b.toNat % 16) :: rest) = some (b :: rest)
    rw [hbyte, UInt8.ofNat_toNat]

end Text

namespace ByteText

theorem firstNotHex_hexOfBytes (data : List UInt8) (position : Nat) :
    firstNotHex position (Text.hexOfBytes data) = none := by
  induction data generalizing position with
  | nil => rfl
  | cons b rest ih =>
    rw [Text.hexOfBytes_cons, firstNotHex, firstNotHex,
      CodePoint.hexValue?_hexDigit _ (Nat.mod_lt _ (by decide)),
      CodePoint.hexValue?_hexDigit _ (Nat.mod_lt _ (by decide))]
    exact ih _

theorem parseHex_render (hrp : Option Text) (data : List UInt8) :
    parseHex (render (.hex hrp) data) = .ok data := by
  have hrender : render (.hex hrp) data = ("0x" : Text) ++ Text.hexOfBytes data :=
    congrArg (("0x" : Text) ++ ·) (List.append_nil _)
  have hlength : (Text.hexOfBytes data).length % 2 ≠ 1 := by simp
  rw [hrender, parseHex, Text.dropStart?_append]
  dsimp only [Option.getD_some]
  rw [if_neg hlength, firstNotHex_hexOfBytes, Text.bytesOfHex?_hexOfBytes]
  rfl

/-! ## Decimal -/

theorem parseItem_ofNat (text : Text) {lead : Text} (hlead : ∀ c ∈ lead, c.isBlank = true)
    (b : UInt8) : parseItem text (lead ++ Text.ofNat b.toNat) = .ok b := by
  have hlt := b.toNat_lt
  have hstrip : (lead ++ Text.ofNat b.toNat).strip = Text.ofNat b.toNat :=
    Text.strip_append hlead fun c hc => Text.isBlank_of_isDigit (Text.isDigit_of_mem_ofNat hc)
  have hdigits : ((Text.ofNat b.toNat).isEmpty || !(Text.ofNat b.toNat).all CodePoint.isDigit) =
      false := by
    rw [List.all_eq_true.mpr fun c hc => Text.isDigit_of_mem_ofNat hc, Bool.not_true, Bool.or_false]
    exact List.isEmpty_eq_false_iff.mpr (Text.ofNat_ne_nil _)
  have hlength : (Text.ofNat b.toNat).length ≤ 3 :=
    Text.length_ofNat_le (by decide) (Nat.lt_of_lt_of_le hlt (by decide))
  have hshort : ¬maxIntegerDigits < (Text.ofNat b.toNat).length := by
    rw [maxIntegerDigits]
    omega
  have hbyte : ¬255 < b.toNat := by omega
  rw [parseItem, hstrip]
  dsimp only
  rw [hdigits, if_neg Bool.false_ne_true, if_neg hshort, Text.toNat_ofNat, if_neg hbyte,
    UInt8.ofNat_toNat]

/-- The bytes between the brackets are read one by one, with blanks before the first of them. -/
theorem mapM_parseItem_join (text : Text) (b : UInt8) (rest : List UInt8) {lead : Text}
    (hlead : ∀ c ∈ lead, c.isBlank = true) :
    (Text.splitOn 0x2C
      (lead ++ Text.join ", " ((b :: rest).map fun b => Text.ofNat b.toNat))).mapM (parseItem text) =
        .ok (b :: rest) := by
  have hcomma : ∀ (b : UInt8) {lead : Text}, (∀ c ∈ lead, c.isBlank = true) →
      (0x2C : CodePoint) ∉ lead ++ Text.ofNat b.toNat := by
    intro b lead hlead hmem
    rcases List.mem_append.mp hmem with h | h
    · exact absurd (hlead _ h) (by decide)
    · exact absurd (Text.isDigit_of_mem_ofNat h) (by decide)
  induction rest generalizing b lead with
  | nil =>
    show (Text.splitOn 0x2C (lead ++ Text.ofNat b.toNat)).mapM (parseItem text) = _
    rw [Text.splitOn_of_not_mem (hcomma b hlead), List.mapM_cons, parseItem_ofNat text hlead]
    rfl
  | cons b' rest ih =>
    have hblank : ∀ c ∈ ([0x20] : Text), c.isBlank = true :=
      List.forall_mem_singleton.mpr (by decide)
    have hjoin : lead ++ Text.join ", " ((b :: b' :: rest).map fun b => Text.ofNat b.toNat) =
        (lead ++ Text.ofNat b.toNat) ++ 0x2C ::
          ([0x20] ++ Text.join ", " ((b' :: rest).map fun b => Text.ofNat b.toNat)) := by
      show lead ++ ((Text.ofNat b.toNat ++ [0x2C, 0x20]) ++ _) = _
      rw [List.append_assoc, List.append_assoc]
      rfl
    rw [hjoin, Text.splitOn_append (hcomma b hlead), List.mapM_cons, parseItem_ofNat text hlead,
      ih b' hblank]
    rfl

theorem parseDecimal_render (hrp : Option Text) (data : List UInt8) :
    parseDecimal (render (.decimal hrp) data) = .ok data := by
  have hrender : render (.decimal hrp) data =
      0x5B :: (Text.join ", " (data.map fun b => Text.ofNat b.toNat) ++ [0x5D]) := rfl
  have hbody : listBody? (render (.decimal hrp) data) =
      some (Text.join ", " (data.map fun b => Text.ofNat b.toNat)) := by
    rw [listBody?, hrender, Text.strip_between (by decide) (by decide)]
    show (if _ then _ else _) = _
    rw [List.getLast?_concat, if_pos rfl, List.dropLast_concat]
  rw [parseDecimal, hbody]
  dsimp only
  cases data with
  | nil => rfl
  | cons b rest =>
    have hne : (Text.join ", " ((b :: rest).map fun b => Text.ofNat b.toNat)).strip ≠ [] := by
      obtain ⟨c, t, ht⟩ := List.exists_cons_of_ne_nil (Text.ofNat_ne_nil b.toNat)
      have hmem : c ∈ Text.ofNat b.toNat := ht ▸ List.mem_cons_self
      refine Text.strip_ne_nil (Text.mem_join_cons hmem) ?_
      exact Text.isBlank_of_isDigit (Text.isDigit_of_mem_ofNat hmem)
    rw [if_neg fun hempty => hne (List.isEmpty_iff.mp hempty)]
    exact mapM_parseItem_join _ b rest (List.forall_mem_nil _)

end ByteText

/-! ## Checksummed -/

namespace Bech32

theorem wordOf?_charOf : ∀ w : Word, wordOf? (charOf w) = some w := by decide

theorem charOf_spec : ∀ w : Word, (charOf w).IsLowerAscii ∧ charOf w ≠ 0x31 := by decide

theorem wordsOf_map_charOf (words : List Word) : wordsOf (words.map charOf) = .ok words := by
  induction words with
  | nil => rfl
  | cons w rest ih =>
    rw [List.map_cons, wordsOf, wordOf?_charOf, ih]
    rfl

/-- The last separator is the one before a text without separators. -/
theorem splitLast_append (hrp : Text) {tail : Text} (h : (0x31 : CodePoint) ∉ tail) :
    splitLast (hrp ++ 0x31 :: tail) = some (hrp, tail) := by
  have hafter : (((hrp ++ 0x31 :: tail).reverse.takeWhile (· != 0x31)).reverse) = tail := by
    have htail : ∀ c ∈ tail.reverse, (c != 0x31) = true := by
      intro c hc
      exact bne_iff_ne.mpr fun hc' => h (hc' ▸ List.mem_reverse.mp hc)
    rw [List.reverse_append, List.reverse_cons, List.append_assoc,
      List.takeWhile_append_of_pos htail]
    show (tail.reverse ++ []).reverse = tail
    rw [List.append_nil, List.reverse_reverse]
  have hlength : (hrp ++ 0x31 :: tail).length = hrp.length + 1 + tail.length := by
    rw [List.length_append, List.length_cons]
    omega
  rw [splitLast, hafter]
  rw [if_neg (by omega), hlength]
  have htake : hrp.length + 1 + tail.length - tail.length - 1 = hrp.length := by omega
  rw [htake, List.take_left]

/-- Visible characters below 127, none of them a letter from A to Z. -/
def ValidHrp (hrp : Text) : Prop :=
  ∀ c ∈ hrp, 33 ≤ c.val ∧ c.val ≤ 126 ∧ ¬(0x41 ≤ c.val ∧ c.val ≤ 0x5A)

-- named, since the instance that is found goes through all code points
instance instDecidableValidHrp (hrp : Text) : Decidable (ValidHrp hrp) :=
  List.decidableBAll (fun c : CodePoint => 33 ≤ c.val ∧ c.val ≤ 126 ∧
    ¬(0x41 ≤ c.val ∧ c.val ≤ 0x5A)) hrp

theorem lower_render {hrp : Text} (h : ValidHrp hrp) (variant : Bech32Variant) (data : List UInt8) :
    (render variant hrp data).lower = render variant hrp data := by
  apply Text.lower_of_isLowerAscii
  intro c hc
  rcases List.mem_append.mp hc with hhrp | htail
  · obtain ⟨_, hle, hletter⟩ := h c hhrp
    exact ⟨by omega, hletter⟩
  · rcases List.mem_cons.mp htail with rfl | hword
    · decide
    · obtain ⟨w, _, rfl⟩ := List.mem_map.mp hword
      exact (charOf_spec w).1

/-- A text in one case that is in lower case what is written is accepted, with the words of the bytes
and of the checksum. -/
theorem accepted_of_lower {hrp t : Text} (hne : hrp ≠ []) (h : ValidHrp hrp)
    {variant : Bech32Variant} {data : List UInt8} {maxLength : Int}
    (hcase : t.isLower = true ∨ t.isUpper = true) (hlower : t.lower = render variant hrp data)
    (hlength : (t.length : Int) ≤ maxLength) :
    Accepted variant hrp maxLength t
      (wordsOfBytes data ++ checksum variant hrp (wordsOfBytes data)) where
  length_le := hlength
  one_case := hcase
  hrp_ne_nil := hne
  hrp_visible c hc := ⟨(h c hc).1, (h c hc).2.1⟩
  split := by
    refine ⟨_, ?_, ?_, wordsOf_map_charOf _⟩
    · rw [hlower]
      refine splitLast_append hrp fun hmem => ?_
      obtain ⟨w, _, hw⟩ := List.mem_map.mp hmem
      exact (charOf_spec w).2 hw
    · simp
  valid := polymod_checksum variant hrp (wordsOfBytes data)

theorem parse_of_lower {hrp t : Text} (hne : hrp ≠ []) (h : ValidHrp hrp)
    {variant : Bech32Variant} {data : List UInt8} {maxLength : Int}
    (hcase : t.isLower = true ∨ t.isUpper = true) (hlower : t.lower = render variant hrp data)
    (hlength : (t.length : Int) ≤ maxLength) : parse variant hrp maxLength t = .ok data := by
  refine parse_eq_ok_iff.mpr ⟨_, accepted_of_lower hne h hcase hlower hlength, ?_⟩
  rw [List.length_append, length_checksum, Nat.add_sub_cancel, List.take_left]
  exact bytesOfWords?_wordsOfBytes data

theorem parse_render_of_validHrp {hrp : Text} (hne : hrp ≠ []) (h : ValidHrp hrp)
    {variant : Bech32Variant} {data : List UInt8} {maxLength : Int}
    (hlength : ((render variant hrp data).length : Int) ≤ maxLength) :
    parse variant hrp maxLength (render variant hrp data) = .ok data :=
  parse_of_lower hne h (.inl (decide_eq_true (lower_render h variant data)))
    (lower_render h variant data) hlength

end Bech32

/-! ## Every display -/

namespace ByteText

theorem checksummed_parses_iff {variant : Bech32Variant} {hrp t : Text} {nonempty : hrp ≠ []}
    {maxLength : Int} {data : List UInt8} :
    parse (.checksummed variant hrp nonempty) maxLength t = .ok data ↔
      Bech32.parse variant hrp maxLength t = .ok data := Output.mapError_eq_ok_iff

/-- A byte string is read back from its text: always from hexadecimal and decimal text, and from
checksummed text if that is within the length limit and its human-readable part is of visible
characters without capital letters. -/
theorem parse_render {display : ByteDisplay} {maxLength : Int} {data : List UInt8}
    (h : ∀ variant hrp nonempty, display = .checksummed variant hrp nonempty →
      (∀ c ∈ hrp, 33 ≤ c.val ∧ c.val ≤ 126 ∧ ¬(0x41 ≤ c.val ∧ c.val ≤ 0x5A)) ∧
        ((render display data).length : Int) ≤ maxLength) :
    parse display maxLength (render display data) = .ok data := by
  cases display with
  | hex hrp => exact parseHex_render hrp data
  | decimal hrp => exact parseDecimal_render hrp data
  | checksummed variant hrp nonempty =>
    obtain ⟨hhrp, hlength⟩ := h variant hrp nonempty rfl
    exact checksummed_parses_iff.mpr (Bech32.parse_render_of_validHrp nonempty hhrp hlength)

/-- Addresses under a human-readable part that holds the separator. -/
def addressDisplay : ByteDisplay := .checksummed .bech32m "a1b" (by decide)

theorem parse_render_address :
    render addressDisplay [0, 255, 7] = "a1b1qrlswfyqdvx" ∧
      parse addressDisplay 90 (render addressDisplay [0, 255, 7]) = .ok [0, 255, 7] := by
  have hrender : render addressDisplay [0, 255, 7] = "a1b1qrlswfyqdvx" := by decide
  have hvalid : Bech32.ValidHrp "a1b" := by decide
  refine ⟨hrender, parse_render fun variant hrp nonempty hdisplay => ?_⟩
  cases hdisplay
  exact ⟨hvalid, by rw [hrender]; decide⟩

end ByteText

end BorshWire
