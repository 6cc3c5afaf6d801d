import BorshWire.Number.Numeral
import Mathlib.Data.List.TakeDrop
import Mathlib.Data.List.TakeWhile

/-!
# The grammar of numerals

Reading a text as a numeral is the inverse of spelling it (`read?_of_spelled`, `spelled_of_read?`). A
numeral is spelled by an optional sign, digits with at most one point before, among or after them, and
an optional exponent of a mark, an optional sign and digits.
-/

namespace BorshWire

namespace Numeral

/-! ## Spelling -/

/-- Digits, at least one of them. -/
def Digits (t : Text) : Prop := t ≠ [] ∧ ∀ c ∈ t, c.isDigit = true

/-- A text with an optional sign in front of its body. -/
inductive Signed : Bool → Text → Text → Prop where
  | minus (body : Text) : Signed true body (0x2D :: body)
  | plus (body : Text) : Signed false body (0x2B :: body)
  | none (body : Text) : Signed false body body

/-- The text of an exponent: nothing, or a mark and digits after an optional sign. -/
inductive SpelledExponent : Option Int → Text → Prop where
  | none : SpelledExponent none []
  | some {mark : CodePoint} {negative : Bool} {digits t : Text} (hmark : mark = 0x65 ∨ mark = 0x45)
    (hsign : Signed negative digits t) (hdigits : Digits digits) :
    SpelledExponent (some (if negative then -(Text.toNat digits : Int) else Text.toNat digits))
      (mark :: t)

/-- The text of a fraction: nothing, or a point and its digits. -/
def spellFraction : Option Text → Text
  | none => []
  | some digits => 0x2E :: digits

/-- The text of a numeral. There is a digit before or after the point. -/
inductive Spelled : Text → Numeral → Prop where
  | intro {negative : Bool} {whole t tail : Text} {fraction : Option Text} {exponent : Option Int}
    (hwhole : ∀ c ∈ whole, c.isDigit = true)
    (hfraction : ∀ digits, fraction = some digits → ∀ c ∈ digits, c.isDigit = true)
    (hdigit : whole ≠ [] ∨ ∃ digits, fraction = some digits ∧ digits ≠ [])
    (hexponent : SpelledExponent exponent tail)
    (hsign : Signed negative (whole ++ (spellFraction fraction ++ tail)) t) :
    Spelled t ⟨negative, whole, fraction, exponent⟩

/-! ## Taking signs and digits -/

/-- A text starts with neither a sign. -/
def Unsigned (t : Text) : Prop := ∀ c rest, t = c :: rest → c ≠ 0x2D ∧ c ≠ 0x2B

theorem signed_takeSign (t : Text) : Signed (takeSign t).1 (takeSign t).2 t := by
  unfold takeSign
  split
  · exact .minus _
  · exact .plus _
  · exact .none _

theorem takeSign_of_signed {negative : Bool} {body t : Text} (h : Signed negative body t)
    (hbody : Unsigned body) : takeSign t = (negative, body) := by
  cases h with
  | minus => rfl
  | plus => rfl
  | none =>
    unfold takeSign
    split
    · exact absurd rfl (hbody _ _ rfl).1
    · exact absurd rfl (hbody _ _ rfl).2
    · rfl

theorem unsigned_of_isDigit {c : CodePoint} {t : Text} (h : c.isDigit = true) : Unsigned (c :: t) := by
  rintro _ _ ⟨⟩
  constructor <;> rintro rfl <;> cases h

theorem unsigned_of_digits {t : Text} (h : Digits t) : Unsigned t := by
  obtain ⟨c, rest, rfl⟩ := List.exists_cons_of_ne_nil h.1
  exact unsigned_of_isDigit (h.2 c List.mem_cons_self)

/-- A text does not go on with a digit. -/
def Undigited (t : Text) : Prop := ∀ c rest, t = c :: rest → c.isDigit = false

theorem takeDigits_append {digits rest : Text} (h : ∀ c ∈ digits, c.isDigit = true)
    (hrest : Undigited rest) : takeDigits (digits ++ rest) = (digits, rest) := by
  have htake : rest.takeWhile CodePoint.isDigit = [] := by
    cases rest with
    | nil => rfl
    | cons c rest => exact List.takeWhile_cons_of_neg (Bool.eq_false_iff.mp (hrest c rest rfl))
  have hdrop : rest.dropWhile CodePoint.isDigit = rest := by
    cases rest with
    | nil => rfl
    | cons c rest => exact List.dropWhile_cons_of_neg (Bool.eq_false_iff.mp (hrest c rest rfl))
  rw [takeDigits, List.span_eq_takeWhile_dropWhile, List.takeWhile_append_of_pos h,
    List.dropWhile_append_of_pos h, htake, hdrop, List.append_nil]

theorem takeDigits_spec (t : Text) :
    t = (takeDigits t).1 ++ (takeDigits t).2 ∧ (∀ c ∈ (takeDigits t).1, c.isDigit = true) ∧
      Undigited (takeDigits t).2 := by
  rw [takeDigits, List.span_eq_takeWhile_dropWhile]
  refine ⟨List.takeWhile_append_dropWhile.symm, fun c hc => List.mem_takeWhile_imp hc, ?_⟩
  intro c rest h
  have hrest : t.dropWhile CodePoint.isDigit = c :: rest := h
  have hhead := List.head?_dropWhile_not CodePoint.isDigit t
  rw [hrest] at hhead
  exact hhead

/-! ## Reading -/

theorem digits_iff {t : Text} :
    (t.isEmpty || !t.all CodePoint.isDigit) = false ↔ Digits t := by
  simp [Digits]

theorem readExponent?_eq_some_iff {t : Text} {exponent : Option Int} :
    readExponent? t = some exponent ↔ SpelledExponent exponent t := by
  constructor
  · intro h
    cases t with
    | nil =>
      obtain rfl := Option.some.inj h
      exact .none
    | cons mark rest =>
      rw [readExponent?] at h
      split at h
      · rename_i hmark
        dsimp only at h
        split at h
        · cases h
        · rename_i hdigits
          obtain rfl := Option.some.inj h
          exact .some hmark (signed_takeSign rest) (digits_iff.mp (Bool.eq_false_iff.mpr hdigits))
      · cases h
  · intro h
    cases h with
    | none => rfl
    | some hmark hsign hdigits =>
      rw [readExponent?, if_pos hmark, takeSign_of_signed hsign (unsigned_of_digits hdigits)]
      dsimp only
      rw [if_neg (Bool.eq_false_iff.mp (digits_iff.mpr hdigits))]

theorem SpelledExponent.start {exponent : Option Int} {t : Text} (h : SpelledExponent exponent t) :
    ∀ c rest, t = c :: rest → c.isDigit = false ∧ c ≠ 0x2E ∧ c ≠ 0x2D ∧ c ≠ 0x2B := by
  rintro c rest rfl
  cases h with
  | some hmark _ _ => rcases hmark with rfl | rfl <;> decide

theorem read?_of_spelled {t : Text} {n : Numeral} (h : Spelled t n) : read? t = some n := by
  cases h with
  | @intro negative whole t tail fraction exponent hwhole hfraction hdigit hexponent hsign =>
    have hexponent' := readExponent?_eq_some_iff.mpr hexponent
    have htail : Undigited tail := fun c rest h => (hexponent.start c rest h).1
    have hbody : Unsigned (whole ++ (spellFraction fraction ++ tail)) := by
      cases whole with
      | cons c rest => exact unsigned_of_isDigit (hwhole c List.mem_cons_self)
      | nil =>
        obtain ⟨digits, rfl, _⟩ := hdigit.resolve_left (· rfl)
        rintro _ _ ⟨⟩
        decide
    have hrest : Undigited (spellFraction fraction ++ tail) := by
      cases fraction with
      | none => exact htail
      | some digits =>
        rintro _ _ ⟨⟩
        rfl
    rw [read?, takeSign_of_signed hsign hbody]
    dsimp only
    rw [takeDigits_append hwhole hrest]
    cases fraction with
    | some digits =>
      split
      · rename_i rest hpoint
        obtain rfl : digits ++ tail = rest := (List.cons.inj hpoint).2
        rw [takeDigits_append (hfraction digits rfl) htail]
        dsimp only
        rw [if_neg (by simpa [Classical.or_iff_not_imp_left] using hdigit), hexponent']
        rfl
      · rename_i hpoint
        exact absurd rfl (hpoint _)
    | none =>
      have hne : whole ≠ [] := hdigit.resolve_right nofun
      dsimp only [spellFraction, List.nil_append]
      split
      · exact absurd rfl (hexponent.start _ _ rfl).2.1
      · rw [if_neg (by simpa using hne), hexponent']
        rfl

theorem spelled_of_read? {t : Text} {n : Numeral} (h : read? t = some n) : Spelled t n := by
  have hsign := signed_takeSign t
  obtain ⟨hbody, hwhole, -⟩ := takeDigits_spec (takeSign t).2
  rw [hbody] at hsign
  unfold read? at h
  dsimp only at h
  split at h
  · rename_i rest hpoint
    obtain ⟨hrest, hfraction, -⟩ := takeDigits_spec rest
    split at h
    · cases h
    · rename_i hempty
      obtain ⟨exponent, hexponent, rfl⟩ := Option.map_eq_some_iff.mp h
      refine .intro hwhole ?_ ?_ (readExponent?_eq_some_iff.mp hexponent) ?_
      · rintro _ ⟨⟩
        exact hfraction
      · simpa [Classical.or_iff_not_imp_left] using hempty
      · rw [hpoint, hrest] at hsign
        exact hsign
  · split at h
    · cases h
    · rename_i hempty
      obtain ⟨exponent, hexponent, rfl⟩ := Option.map_eq_some_iff.mp h
      refine .intro hwhole nofun (.inl ?_) (readExponent?_eq_some_iff.mp hexponent) hsign
      simpa using hempty

theorem Spelled.unique {t : Text} {n n' : Numeral} (h : Spelled t n) (h' : Spelled t n') : n = n' :=
  Option.some.inj ((read?_of_spelled h).symm.trans (read?_of_spelled h'))

end Numeral

end BorshWire
