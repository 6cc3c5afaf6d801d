import BorshWire.Encode.Scalar
import BorshWire.Proofs.Number.Grammar
import Mathlib.Data.List.Induction

/-!
# Integers in decimal

`numberOfText?_ofInt`: the decimal text of an integer is read as the integer again, if it has no
more digits than are converted.
-/

namespace BorshWire

/-! ## Digits -/

theorem CodePoint.val_ofChar_of_isDigit {c : Char} (h : c.isDigit = true) :
    (CodePoint.ofChar c).val = c.toNat ∧ 0x30 ≤ c.toNat ∧ c.toNat ≤ 0x39 := by
  obtain ⟨hlow, hhigh⟩ := (Bool.and_eq_true _ _).mp h
  have hlow' : 0x30 ≤ c.toNat := of_decide_eq_true hlow
  have hhigh' : c.toNat ≤ 0x39 := of_decide_eq_true hhigh
  refine ⟨?_, hlow', hhigh'⟩
  show c.toNat % 0x110000 = c.toNat
  omega

namespace Text

theorem isDigit_of_mem_ofNat {n : Nat} {c : CodePoint} (h : c ∈ ofNat n) : c.isDigit = true := by
  obtain ⟨char, hmem, rfl⟩ := List.mem_map.mp h
  have hdigit := Nat.isDigit_of_mem_toDigits (by decide) (by decide) hmem
  obtain ⟨hval, hbounds⟩ := CodePoint.val_ofChar_of_isDigit hdigit
  unfold CodePoint.isDigit
  rw [hval, decide_eq_true hbounds]

theorem ofNat_ne_nil (n : Nat) : ofNat n ≠ [] := fun h =>
  absurd (List.map_eq_nil_iff.mp h) Nat.toDigits_ne_nil

theorem exists_digit_ofNat (n : Nat) : ∃ c tail, ofNat n = c :: tail ∧ c.isDigit = true := by
  obtain ⟨c, tail, hcons⟩ := List.exists_cons_of_ne_nil (ofNat_ne_nil n)
  exact ⟨c, tail, hcons, isDigit_of_mem_ofNat (n := n) (hcons ▸ List.mem_cons_self)⟩

@[simp] theorem toNat_ofNat (n : Nat) : toNat (ofNat n) = n := by
  have hfold : ∀ (chars : List Char) (start : Nat), (∀ c ∈ chars, c.isDigit = true) →
      (chars.map CodePoint.ofChar).foldl (fun n c => 10 * n + c.digitValue) start =
        Nat.ofDigitChars 10 chars start := by
    intro chars
    induction chars with
    | nil => exact fun _ _ => Nat.ofDigitChars_nil.symm
    | cons c chars ih =>
      intro start h
      obtain ⟨hval, _⟩ := CodePoint.val_ofChar_of_isDigit (h c List.mem_cons_self)
      rw [List.map_cons, List.foldl_cons, Nat.ofDigitChars_cons,
        ih _ fun c hc => h c (List.mem_cons_of_mem _ hc), CodePoint.digitValue, hval]
      rfl
  unfold toNat ofNat
  rw [hfold _ _ fun c => Nat.isDigit_of_mem_toDigits (by decide) (by decide),
    Nat.ofDigitChars_ten_toDigits]

theorem toNat_lt {digits : Text} (h : ∀ c ∈ digits, c.isDigit = true) :
    toNat digits < tenPow digits.length := by
  induction digits using List.reverseRecOn with
  | nil => exact Nat.zero_lt_one
  | append_singleton digits c ih =>
    have hlast := h c (List.mem_append_right _ List.mem_cons_self)
    have hfront := ih fun c hc => h c (List.mem_append_left _ hc)
    have hdigit : c.digitValue ≤ 9 := by
      have hbounds : 0x30 ≤ c.val ∧ c.val ≤ 0x39 := of_decide_eq_true hlast
      show c.val - 0x30 ≤ 9
      omega
    have hvalue : toNat (digits ++ [c]) = 10 * toNat digits + c.digitValue := by
      rw [toNat, List.foldl_append]
      rfl
    have hpower : tenPow (digits ++ [c]).length = tenPow digits.length * 10 := by
      rw [List.length_append]
      rfl
    omega

/-- The digits of a positive number start with another one than zero. -/
theorem exists_ofNat_eq_cons {n : Nat} (hn : 0 < n) :
    ∃ c rest, ofNat n = c :: rest ∧ c ≠ 0x30 := by
  induction n using Nat.strongRecOn with
  | ind n ih =>
    by_cases hlt : n < 10
    · have hdigits : ∀ m < 10, 0 < m → CodePoint.ofChar (Nat.digitChar m) ≠ 0x30 := by decide
      refine ⟨_, [], ?_, hdigits n hlt hn⟩
      rw [ofNat, Nat.toDigits_of_lt_base hlt]
      rfl
    · have hle : 10 ≤ n := Nat.not_lt.mp hlt
      obtain ⟨c, rest, hfront, hc⟩ := ih (n / 10) (by omega) (by omega)
      refine ⟨c, rest ++ [CodePoint.ofChar (n % 10).digitChar], ?_, hc⟩
      rw [ofNat, Nat.toDigits_of_base_le (by decide) hle, List.map_append]
      show ofNat (n / 10) ++ _ = _
      rw [hfront]
      rfl

theorem length_ofNat_le {n k : Nat} (hk : 0 < k) (h : n < tenPow k) : (ofNat n).length ≤ k := by
  unfold ofNat
  rw [List.length_map]
  exact (Nat.length_toDigits_le_iff (by decide) hk).mpr h

/-! ## Texts without blanks -/

theorem trim_eq_self {p : CodePoint → Bool} {t : Text} (h : ∀ c ∈ t, p c = false) :
    t.trim p = t := by
  have hfirst : ∀ u : Text, (∀ c ∈ u, p c = false) → u.dropWhile p = u := by
    intro u hu
    exact List.dropWhile_eq_self_iff.mpr fun hl => Bool.eq_false_iff.mp (hu _ (List.getElem_mem hl))
  unfold trim
  rw [hfirst t h, hfirst _ fun c hc => h c (List.mem_reverse.mp hc), List.reverse_reverse]

theorem trim_padded {p : CodePoint → Bool} {lead trail : Text} (hlead : ∀ c ∈ lead, p c = true)
    (htrail : ∀ c ∈ trail, p c = true) (t : Text) : (lead ++ (t ++ trail)).trim p = t.trim p := by
  have hback : ∀ c ∈ trail.reverse, p c = true := fun c hc => htrail c (List.mem_reverse.mp hc)
  rw [trim, trim, List.dropWhile_append_of_pos hlead, List.dropWhile_append]
  split
  · rename_i hempty
    rw [List.isEmpty_iff.mp hempty, List.dropWhile_eq_nil_iff.mpr htrail]
  · rw [List.reverse_append, List.dropWhile_append_of_pos hback]

theorem trim_append {p : CodePoint → Bool} {lead t trail : Text} (hlead : ∀ c ∈ lead, p c = true)
    (ht : ∀ c ∈ t, p c = false) (htrail : ∀ c ∈ trail, p c = true) :
    (lead ++ (t ++ trail)).trim p = t :=
  (trim_padded hlead htrail t).trans (trim_eq_self ht)

theorem exists_trim (p : CodePoint → Bool) (t : Text) :
    ∃ lead trail, (∀ c ∈ lead, p c = true) ∧ (∀ c ∈ trail, p c = true) ∧
      t = lead ++ (t.trim p ++ trail) := by
  have hback := List.takeWhile_append_dropWhile (p := p) (l := (t.dropWhile p).reverse)
  refine ⟨t.takeWhile p, ((t.dropWhile p).reverse.takeWhile p).reverse,
    fun c hc => List.mem_takeWhile_imp hc,
    fun c hc => List.mem_takeWhile_imp (List.mem_reverse.mp hc), ?_⟩
  rw [trim, ← List.reverse_append, hback, List.reverse_reverse, List.takeWhile_append_dropWhile]

theorem trim_eq_trim {p q : CodePoint → Bool} (hqp : ∀ c, q c = true → p c = true) {t : Text}
    (h : ∀ c ∈ t.trim q, p c = false) : t.trim p = t.trim q := by
  obtain ⟨lead, trail, hlead, htrail, ht⟩ := exists_trim q t
  calc t.trim p = (lead ++ (t.trim q ++ trail)).trim p := congrArg (trim p) ht
    _ = t.trim q := trim_append (fun c hc => hqp c (hlead c hc)) h fun c hc => hqp c (htrail c hc)

theorem isBlank_of_isDigit {c : CodePoint} (h : c.isDigit = true) : c.isBlank = false := by
  have hbounds : 0x30 ≤ c.val ∧ c.val ≤ 0x39 := of_decide_eq_true h
  unfold CodePoint.isBlank
  rw [CodePoint.isWhiteSpace, decide_eq_false (by omega), decide_eq_false (by omega)]
  rfl

theorem strip_ofInt (n : Int) : (ofInt n).strip = ofInt n := by
  apply trim_eq_self
  intro c hc
  cases n with
  | ofNat n => exact isBlank_of_isDigit (isDigit_of_mem_ofNat hc)
  | negSucc n =>
    rcases List.mem_cons.mp hc with rfl | hc
    · decide
    · exact isBlank_of_isDigit (isDigit_of_mem_ofNat hc)

end Text

/-! ## Reading decimal text -/

theorem Numeral.spelled_ofInt (n : Int) :
    Spelled (Text.ofInt n) ⟨decide (n < 0), Text.ofNat n.natAbs, none, none⟩ := by
  refine .intro (fun c => Text.isDigit_of_mem_ofNat) nofun (.inl (Text.ofNat_ne_nil _)) .none ?_
  rw [spellFraction, List.nil_append, List.append_nil]
  cases n with
  | ofNat n =>
    have hn : ¬Int.ofNat n < 0 := Int.not_lt.mpr (Int.natCast_nonneg n)
    rw [decide_eq_false hn]
    exact .none _
  | negSucc n =>
    rw [decide_eq_true (Int.negSucc_lt_zero n)]
    exact .minus _

theorem Numeral.spells_toInt {n : Numeral} (hdigits : ∀ c ∈ n.whole, c.isDigit = true)
    (hlength : n.whole.length ≤ maxIntegerDigits) : Text.spells n.toInt = true := by
  have hsize : n.toInt.natAbs = Text.toNat n.whole := by
    unfold toInt
    dsimp only
    split <;> omega
  exact Text.spells_of_lt n.whole.length (hsize ▸ Text.toNat_lt hdigits) hlength

/-- There are no blanks in a numeral. -/
theorem Numeral.Spelled.isBlank {t : Text} {n : Numeral} (h : Spelled t n) {c : CodePoint}
    (hc : c ∈ t) : c.isBlank = false := by
  have hsigned : ∀ {negative : Bool} {body t : Text}, Signed negative body t →
      (∀ c ∈ body, c.isBlank = false) → ∀ c ∈ t, c.isBlank = false := by
    intro negative body t hsign hbody
    cases hsign with
    | minus => exact List.forall_mem_cons.mpr ⟨by decide, hbody⟩
    | plus => exact List.forall_mem_cons.mpr ⟨by decide, hbody⟩
    | none => exact hbody
  cases h with
  | @intro _ whole _ tail fraction exponent hwhole hfraction _ hexponent hsign =>
    refine hsigned hsign (List.forall_mem_append.mpr ⟨?_, List.forall_mem_append.mpr ⟨?_, ?_⟩⟩) c hc
    · exact fun c hc => Text.isBlank_of_isDigit (hwhole c hc)
    · cases fraction with
      | none => exact List.forall_mem_nil _
      | some digits =>
        refine List.forall_mem_cons.mpr ⟨by decide, fun c hc => ?_⟩
        exact Text.isBlank_of_isDigit (hfraction digits rfl c hc)
    · cases hexponent with
      | none => exact List.forall_mem_nil _
      | some hmark hexponentSign hdigits =>
        refine List.forall_mem_cons.mpr ⟨by rcases hmark with rfl | rfl <;> decide, ?_⟩
        exact hsigned hexponentSign fun c hc => Text.isBlank_of_isDigit (hdigits.2 c hc)

/-- A numeral between white space is a numeral between blanks. -/
theorem Numeral.strip_of_spelled {t : Text} {n : Numeral}
    (h : Spelled (t.trim CodePoint.isWhiteSpace) n) : t.strip = t.trim CodePoint.isWhiteSpace :=
  Text.trim_eq_trim (fun _ => CodePoint.isBlank_of_isWhiteSpace) fun _ => h.isBlank

namespace Encode

theorem spells_of_numberOfText? {t : Text} {n : Int} (h : numberOfText? t = some (.int n)) :
    Text.spells n = true := by
  obtain ⟨m, hread, hm⟩ := Option.bind_eq_some_iff.mp h
  unfold numberOf? at hm
  split at hm
  · split at hm
    · cases hm
    · rename_i hlength
      obtain rfl := Value.int.inj (Option.some.inj hm)
      obtain ⟨hwhole⟩ := Numeral.spelled_of_read? hread
      exact Numeral.spells_toInt hwhole (Nat.not_lt.mp hlength)
  · cases hm

/-- The decimal text of an integer is read as the integer. -/
theorem numberOfText?_ofInt {n : Int}
    (h : (Text.ofNat n.natAbs).length ≤ maxIntegerDigits) :
    numberOfText? (Text.ofInt n) = some (.int n) := by
  unfold numberOfText?
  rw [Text.strip_ofInt, Numeral.read?_of_spelled (Numeral.spelled_ofInt n)]
  have hint : Numeral.toInt ⟨decide (n < 0), Text.ofNat n.natAbs, none, none⟩ = n := by
    unfold Numeral.toInt
    dsimp only
    rw [Text.toNat_ofNat]
    by_cases hn : n < 0
    · simp only [hn, decide_true, if_true]
      omega
    · simp only [hn, decide_false, Bool.false_eq_true, if_false]
      omega
  have hinteger : Numeral.isInteger ⟨decide (n < 0), Text.ofNat n.natAbs, none, none⟩ = true := rfl
  show numberOf? _ = _
  unfold numberOf?
  rw [if_pos hinteger, if_neg (Nat.not_lt.mpr h), hint]

end Encode

end BorshWire
