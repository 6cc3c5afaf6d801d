import BorshWire.Json.Parser
import BorshWire.Proofs.Text.Decimal
import BorshWire.Value.Spelling

/-!
# Tokens of documents

The strings, integers and words that a value is spelled with are read back, in whatever document
they stand (`string_jsonString`, `scalar_ofInt`, `scalar_word`). What stands behind a number ends
it: a comma, a closing bracket or the end of the document.
-/

namespace BorshWire

namespace Json

/-- What may stand behind a value: nothing, a comma or a closing bracket. -/
def Closes (rest : Text) : Prop := ∀ c tail, rest = c :: tail → c = 0x2C ∨ c = 0x5D ∨ c = 0x7D

theorem Closes.nil : Closes [] := nofun

theorem Closes.cons {c : CodePoint} (h : c = 0x2C ∨ c = 0x5D ∨ c = 0x7D) (rest : Text) :
    Closes (c :: rest) := by
  rintro _ _ ⟨⟩
  exact h

/-- A text is read as something, wherever it stands. -/
def IsReadAs {α : Type} (read : Cursor → Read α) (t : Text) (a : α) : Prop :=
  ∀ (offset : Nat) (rest : Text), Closes rest →
    read ⟨offset, t ++ rest⟩ = .ok (a, ⟨offset + t.length, rest⟩)

theorem Cursor.skipSpace_of_not_space {c : CodePoint} (h : isSpace c = false) (offset : Nat)
    (rest : Text) : skipSpace ⟨offset, c :: rest⟩ = ⟨offset, c :: rest⟩ := by
  rw [skipSpace, List.takeWhile_cons_of_neg (by simp [h])]
  rfl

theorem Cursor.skipSpace_of_closes {rest : Text} (h : Closes rest) (offset : Nat) :
    skipSpace ⟨offset, rest⟩ = ⟨offset, rest⟩ := by
  cases rest with
  | nil => rfl
  | cons c rest =>
    refine skipSpace_of_not_space ?_ offset rest
    rcases h c rest rfl with rfl | rfl | rfl <;> decide

/-! ## Strings -/

theorem readString_skip (opening offset : Nat) (before skipped rest : Text) :
    readString opening offset skipped.length before (skipped ++ rest) =
      readString opening (offset + skipped.length) 0 before rest := by
  induction skipped generalizing offset with
  | nil => rfl
  | cons c skipped ih =>
    rw [List.cons_append, List.length_cons, readString, ih, Nat.add_right_comm, Nat.add_assoc]

theorem readEscape_control (opening offset : Nat) {c : CodePoint} (hc : c.val < 0x20)
    (last : CodePoint) (rest : Text) :
    readEscape opening offset (0x75 :: (Text.hexOfNat 4 c.val ++ last :: rest)) = .ok (c, 6) := by
  have hunit : ∀ n < 0x20, hexUnit? (Text.hexOfNat 4 n) = some n := by decide
  have hfour : (Text.hexOfNat 4 c.val).length = 4 := Text.length_hexOfNat 4 c.val
  have htake : (Text.hexOfNat 4 c.val ++ last :: rest).take 4 = Text.hexOfNat 4 c.val := by
    rw [List.take_append_of_le_length (Nat.le_of_eq hfour.symm),
      List.take_of_length_le (Nat.le_of_eq hfour)]
  have hself : (Fin.ofNat 0x110000 c.val : CodePoint) = c := Fin.ofNat_val_eq_self c
  have hhigh : CodePoint.isHighSurrogate c = false := by
    rw [CodePoint.isHighSurrogate, decide_eq_false (by omega)]
  have hlong : ¬((Text.hexOfNat 4 c.val ++ last :: rest).take 5).length < 5 := by
    rw [List.length_take, List.length_append, hfour, List.length_cons]
    omega
  rw [readEscape, if_neg (by decide), if_neg hlong, htake, hunit _ hc]
  dsimp only
  rw [hself, hhigh]
  rfl

theorem readString_short {mark c : CodePoint} (hmark : mark ≠ 0x75) (h : shortEscape? mark = some c)
    (opening offset : Nat) (before rest : Text) :
    readString opening offset 0 before (0x5C :: mark :: rest) =
      readString opening (offset + 2) 0 (c :: before) rest := by
  have hescape : readEscape opening offset (mark :: rest) = .ok (c, 2) := by
    rw [readEscape, if_pos hmark, h]
  rw [readString, if_neg (by decide), if_pos rfl, hescape]
  exact readString_skip opening (offset + 1) (c :: before) [mark] rest

/-- A code point is written with an escape of two characters, by its number, or as it is. -/
theorem jsonEscaped_cases (c : CodePoint) :
    (∃ mark, mark ≠ 0x75 ∧ shortEscape? mark = some c ∧ c.jsonEscaped = [0x5C, mark]) ∨
      c.val < 0x20 ∧ c.jsonEscaped = 0x5C :: 0x75 :: Text.hexOfNat 4 c.val ∨
      (c ≠ 0x22 ∧ c ≠ 0x5C ∧ ¬c.val < 0x20) ∧ c.jsonEscaped = [c] := by
  by_cases hself : c = 0x22 ∨ c = 0x5C
  · refine .inl ⟨c, ?_, ?_, if_pos hself⟩ <;> rcases hself with rfl | rfl <;> decide
  by_cases hline : c = 0x0A
  · exact .inl ⟨0x6E, by decide, by subst c; rfl, by subst c; rfl⟩
  by_cases hreturn : c = 0x0D
  · exact .inl ⟨0x72, by decide, by subst c; rfl, by subst c; rfl⟩
  by_cases htab : c = 0x09
  · exact .inl ⟨0x74, by decide, by subst c; rfl, by subst c; rfl⟩
  by_cases hback : c = 0x08
  · exact .inl ⟨0x62, by decide, by subst c; rfl, by subst c; rfl⟩
  by_cases hfeed : c = 0x0C
  · exact .inl ⟨0x66, by decide, by subst c; rfl, by subst c; rfl⟩
  have hrest : c.jsonEscaped =
      if c.val < 0x20 then 0x5C :: 0x75 :: Text.hexOfNat 4 c.val else [c] := by
    rw [CodePoint.jsonEscaped, if_neg hself, if_neg hline, if_neg hreturn, if_neg htab,
      if_neg hback, if_neg hfeed]
    rfl
  by_cases hcontrol : c.val < 0x20
  · exact .inr (.inl ⟨hcontrol, hrest.trans (if_pos hcontrol)⟩)
  · exact .inr (.inr ⟨⟨fun h => hself (.inl h), fun h => hself (.inr h), hcontrol⟩,
      hrest.trans (if_neg hcontrol)⟩)

/-- A code point of a string is read back. It is never the last one of the document. -/
theorem readString_escaped (c : CodePoint) (opening offset : Nat) (before : Text) (last : CodePoint)
    (rest : Text) :
    readString opening offset 0 before (c.jsonEscaped ++ last :: rest) =
      readString opening (offset + c.jsonEscaped.length) 0 (c :: before) (last :: rest) := by
  rcases jsonEscaped_cases c with
    ⟨mark, hmark, hshort, hc⟩ | ⟨hlow, hc⟩ | ⟨⟨hquote, hbackslash, hhigh⟩, hc⟩
  · rw [hc]
    exact readString_short hmark hshort opening offset before (last :: rest)
  · have hskip := readString_skip opening (offset + 1) (c :: before)
      (0x75 :: Text.hexOfNat 4 c.val) (last :: rest)
    rw [List.length_cons, Text.length_hexOfNat, List.cons_append] at hskip
    rw [hc, List.cons_append, List.cons_append, readString, if_neg (by decide), if_pos rfl,
      readEscape_control opening offset hlow]
    dsimp only
    rw [hskip, List.length_cons, List.length_cons, Text.length_hexOfNat]
  · rw [hc, List.singleton_append, readString, if_neg hquote, if_neg hbackslash, if_neg hhigh]
    rfl

/-- A string is read up to its closing quote. -/
theorem readString_flatMap (t : Text) (opening offset : Nat) (before rest : Text) :
    readString opening offset 0 before (t.flatMap CodePoint.jsonEscaped ++ 0x22 :: rest) =
      .ok (before.reverse ++ t,
        ⟨offset + (t.flatMap CodePoint.jsonEscaped).length + 1, rest⟩) := by
  induction t generalizing offset before with
  | nil => simp [readString]
  | cons c t ih =>
    have hstep : ∀ tail : Text, tail ≠ [] →
        readString opening offset 0 before (c.jsonEscaped ++ tail) =
          readString opening (offset + c.jsonEscaped.length) 0 (c :: before) tail := by
      intro tail htail
      obtain ⟨last, rest, rfl⟩ := List.exists_cons_of_ne_nil htail
      exact readString_escaped c opening offset before last rest
    rw [List.flatMap_cons, List.append_assoc, hstep _ (by simp), ih]
    simp [Nat.add_assoc]

theorem string_jsonString (t : Text) (offset : Nat) (rest : Text) :
    string (Cursor.advance ⟨offset, t.jsonString ++ rest⟩ 1) =
      .ok (t, ⟨offset + t.jsonString.length, rest⟩) := by
  have hread := readString_flatMap t offset (offset + 1) [] rest
  have hrest : (t.jsonString ++ rest).drop 1 = t.flatMap CodePoint.jsonEscaped ++ 0x22 :: rest := by
    simp [Text.jsonString]
  show readString (offset + 1 - 1) (offset + 1) 0 [] ((t.jsonString ++ rest).drop 1) = _
  rw [hrest, Nat.add_sub_cancel, hread]
  simp only [Text.jsonString, List.reverse_nil, List.nil_append, List.cons_append, List.length_cons,
    List.length_append, List.length_nil]
  congr 3
  omega

/-! ## Scalars -/

theorem undigited_of_closes {rest : Text} (h : Closes rest) : Numeral.Undigited rest := by
  intro c tail hrest
  rcases h c tail hrest with rfl | rfl | rfl <;> rfl

theorem takeWhole_ofNat (n : Nat) {rest : Text} (h : Closes rest) :
    takeWhole (Text.ofNat n ++ rest) = (Text.ofNat n, rest) := by
  rcases Nat.eq_zero_or_pos n with rfl | hn
  · rfl
  · obtain ⟨c, tail, hcons, hc⟩ := Text.exists_ofNat_eq_cons hn
    have hdigits := Numeral.takeDigits_append (fun c hc => Text.isDigit_of_mem_ofNat (n := n) hc)
      (undigited_of_closes h)
    rw [hcons] at hdigits ⊢
    unfold takeWhole
    split
    · rename_i heq
      exact absurd (List.cons.inj heq).1 hc
    · exact hdigits

theorem takeFraction_of_closes {rest : Text} (h : Closes rest) :
    takeFraction rest = (none, 0, rest) := by
  unfold takeFraction
  split
  · rcases h _ _ rfl with hc | hc | hc <;> cases hc
  · rfl

theorem takeExponent_of_closes {rest : Text} (h : Closes rest) :
    takeExponent rest = (none, 0) := by
  cases rest with
  | nil => rfl
  | cons c rest =>
    have hc : ¬(c = 0x65 ∨ c = 0x45) := by
      rcases h c rest rfl with rfl | rfl | rfl <;> decide
    rw [takeExponent, if_neg hc]

theorem number_of_unsigned {c : Cursor} {n : Nat} {rest : Text} (hc : c.rest = Text.ofNat n ++ rest)
    (hrest : Closes rest) (hn : (Text.ofNat n).length ≤ maxIntegerDigits) :
    number c = .ok (.int n, c.advance (Text.ofNat n).length) := by
  have hne : (Text.ofNat n).isEmpty = false := by simp [Text.ofNat_ne_nil]
  unfold number
  dsimp only
  split
  · rename_i heq
    obtain ⟨d, tail, hcons, hd⟩ := Text.exists_digit_ofNat n
    rw [hc, hcons] at heq
    obtain rfl := (List.cons.inj heq).1
    cases hd
  · rw [hc]
    simp [takeWhole_ofNat n hrest, hne, takeFraction_of_closes hrest, takeExponent_of_closes hrest,
      Numeral.isInteger, Numeral.toInt, Text.toNat_ofNat, hn]

theorem number_of_minus {c : Cursor} {n : Nat} {rest : Text}
    (hc : c.rest = 0x2D :: (Text.ofNat n ++ rest)) (hrest : Closes rest)
    (hn : (Text.ofNat n).length ≤ maxIntegerDigits) :
    number c = .ok (.int (-n), c.advance (1 + (Text.ofNat n).length)) := by
  have hne : (Text.ofNat n).isEmpty = false := by simp [Text.ofNat_ne_nil]
  unfold number
  dsimp only
  split
  · rename_i heq
    obtain rfl := (List.cons.inj (hc.symm.trans heq)).2
    simp [takeWhole_ofNat n hrest, hne, takeFraction_of_closes hrest, takeExponent_of_closes hrest,
      Numeral.isInteger, Numeral.toInt, Text.toNat_ofNat, hn]
  · rename_i hother
    exact absurd hc (hother _)

theorem number_ofInt {n : Int} (h : (Text.ofNat n.natAbs).length ≤ maxIntegerDigits) :
    IsReadAs number (Text.ofInt n) (.int n) := by
  intro offset rest hrest
  cases n with
  | ofNat n =>
    have hread := number_of_unsigned (c := ⟨offset, Text.ofNat n ++ rest⟩) rfl hrest h
    simp only [Cursor.advance, List.drop_left] at hread
    exact hread
  | negSucc n =>
    have hread := number_of_minus (c := ⟨offset, 0x2D :: (Text.ofNat (n + 1) ++ rest)⟩) rfl hrest h
    simp only [Cursor.advance, Nat.add_comm 1, List.drop_succ_cons, List.drop_left] at hread
    exact hread

theorem valueWith_of_scalar {c : CodePoint} (h : c ≠ 0x22 ∧ c ≠ 0x5B ∧ c ≠ 0x7B)
    (allowConstants : Bool) (nested : Option (Cursor → Read Value)) (offset : Nat) (tail : Text) :
    valueWith allowConstants nested ⟨offset, c :: tail⟩ =
      scalar allowConstants ⟨offset, c :: tail⟩ := by
  unfold valueWith
  split
  all_goals simp_all

/-- A text with a digit among its first two characters starts with none of some words that have none
there. -/
theorem find?_isPrefixOf_eq_none {α : Type} {table : List (Text × α)} {t : Text}
    (htable : ∀ w ∈ table, 2 ≤ w.1.length ∧ (w.1.take 2).any CodePoint.isDigit = false)
    (ht : (t.take 2).any CodePoint.isDigit = true) :
    (table.find? fun w => w.1.isPrefixOf t) = none := by
  refine List.find?_eq_none.mpr fun w hw hprefix => ?_
  obtain ⟨hlength, hnone⟩ := htable w hw
  obtain ⟨tail, rfl⟩ := List.isPrefixOf_iff_prefix.mp hprefix
  rw [List.take_append_of_le_length hlength, hnone] at ht
  cases ht

theorem any_isDigit_ofInt (n : Int) (rest : Text) :
    ((Text.ofInt n ++ rest).take 2).any CodePoint.isDigit = true := by
  cases n with
  | ofNat n =>
    obtain ⟨c, tail, hcons, hc⟩ := Text.exists_digit_ofNat n
    simp [Text.ofInt, hcons, hc]
  | negSucc n =>
    obtain ⟨c, tail, hcons, hc⟩ := Text.exists_digit_ofNat (n + 1)
    simp [Text.ofInt, hcons, hc]

theorem scalar_ofInt {n : Int} (h : (Text.ofNat n.natAbs).length ≤ maxIntegerDigits)
    (allowConstants : Bool) : IsReadAs (scalar allowConstants) (Text.ofInt n) (.int n) := by
  intro offset rest hrest
  have hdigit := any_isDigit_ofInt n rest
  rw [scalar, find?_isPrefixOf_eq_none (by decide) hdigit, find?_isPrefixOf_eq_none (by decide) hdigit]
  exact number_ofInt h offset rest hrest

theorem scalar_word {word : Text} {v : Value} (h : (word, v) ∈ words) (allowConstants : Bool) :
    IsReadAs (scalar allowConstants) word v := by
  intro offset rest _
  simp only [words, List.mem_cons, List.not_mem_nil, or_false, Prod.mk.injEq] at h
  rcases h with ⟨rfl, rfl⟩ | ⟨rfl, rfl⟩ | ⟨rfl, rfl⟩ <;> rfl

end Json

end BorshWire
