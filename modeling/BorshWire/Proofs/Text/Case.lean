import BorshWire.Text.Case

/-!
# Lower case in ASCII

Of the characters below 128 lower-casing moves the letters from `A` to `Z` only, and of all others
only the Kelvin sign comes to one below 128: it has the lower case of the letter `K`. So a text whose
lower case is below 128 is so itself once each Kelvin sign is replaced by that letter
(`Text.plain_of_lower`), and has the lower case of the text with the letter (`Text.lower_of_plain`).
Upper-casing leaves what is in ASCII and no letter from `a` to `z` as it is.
-/

namespace BorshWire

namespace CodePoint

/-- The lower case of a letter from `A` to `Z`; any other code point as it is. -/
def lowerAscii (c : CodePoint) : CodePoint :=
  if 0x41 ≤ c.val ∧ c.val ≤ 0x5A then Fin.ofNat _ (c.val + 32) else c

/-- The letter `K` for the Kelvin sign; any other code point as it is. -/
def plain (c : CodePoint) : CodePoint := if c.val = 0x212A then 0x4B else c

/-- Below 128 and no letter from `A` to `Z`. -/
def IsLowerAscii (c : CodePoint) : Prop := c.val < 0x80 ∧ ¬(0x41 ≤ c.val ∧ c.val ≤ 0x5A)

instance instDecidableIsLowerAscii (c : CodePoint) : Decidable c.IsLowerAscii :=
  inferInstanceAs (Decidable (_ ∧ _))

/-- Below 128 and no letter from `a` to `z`. -/
def IsUpperAscii (c : CodePoint) : Prop := c.val < 0x80 ∧ ¬(0x61 ≤ c.val ∧ c.val ≤ 0x7A)

instance instDecidableIsUpperAscii (c : CodePoint) : Decidable c.IsUpperAscii :=
  inferInstanceAs (Decidable (_ ∧ _))

theorem plain_of_ne {c : CodePoint} (h : c.val ≠ 0x212A) : c.plain = c := if_neg h

theorem val_lowerAscii (c : CodePoint) :
    c.lowerAscii.val = if 0x41 ≤ c.val ∧ c.val ≤ 0x5A then c.val + 32 else c.val := by
  unfold lowerAscii
  split
  · exact Nat.mod_eq_of_lt (by omega)
  · rfl

/-- A run that lower-casing moves is the one of the letters from `A` to `Z`, or the Kelvin sign
alone, or it lies beyond ASCII both before and after it is moved. -/
theorem lowerRuns_cases :
    ∀ r ∈ lowerRuns,
      r = (⟨0x41, 0x5A, 1⟩, 32) ∨ r = (⟨0x212A, 0x212A, 1⟩, -8383) ∨
        0x80 ≤ r.1.first ∧ (r.1.last < 0x212A ∨ 0x212A < r.1.first) ∧
          0x80 ≤ r.1.first + r.2 ∧ r.1.last + r.2 < 0x110000 := by
  have hall : ∀ r ∈ lowerRuns,
      r.1.first = 0x41 ∧ r.1.last = 0x5A ∧ r.1.step = 1 ∧ r.2 = 32 ∨
        r.1.first = 0x212A ∧ r.1.last = 0x212A ∧ r.1.step = 1 ∧ r.2 = -8383 ∨
          0x80 ≤ r.1.first ∧ (r.1.last < 0x212A ∨ 0x212A < r.1.first) ∧
            0x80 ≤ r.1.first + r.2 ∧ r.1.last + r.2 < 0x110000 := by
    decide +kernel
  rintro ⟨⟨first, last, step⟩, offset⟩ hr
  rcases hall _ hr with ⟨rfl, rfl, rfl, rfl⟩ | ⟨rfl, rfl, rfl, rfl⟩ | h
  · exact .inl rfl
  · exact .inr (.inl rfl)
  · exact .inr (.inr h)

/-- Either a code point is in ASCII or the Kelvin sign, and one ASCII character in lower case; or it
is beyond ASCII, and not in ASCII in lower case. -/
theorem lower_cases (c : CodePoint) :
    c.plain.val < 0x80 ∧ c.lower = [c.plain.lowerAscii] ∨
      0x80 ≤ c.plain.val ∧ ∃ d ∈ c.lower, 0x80 ≤ d.val := by
  by_cases hdotted : c.val = 0x130
  · refine .inr ⟨by rw [plain_of_ne] <;> omega, 0x307, ?_, by decide⟩
    simp [lower, hdotted]
  cases hfind : lowerRuns.find? fun r => r.1.has c.val with
  | some r =>
    have hlower : c.lower = [Fin.ofNat _ ((c.val : Int) + r.2).toNat] := by
      simp [lower, hdotted, hfind]
    have hhas : r.1.first ≤ c.val ∧ c.val ≤ r.1.last ∧ (c.val - r.1.first) % r.1.step = 0 :=
      of_decide_eq_true (List.find?_some hfind :)
    rcases lowerRuns_cases r (List.mem_of_find?_eq_some hfind) with rfl | rfl | hbeyond
    · dsimp only at hhas hlower
      have hplain : c.plain = c := plain_of_ne (by omega)
      refine .inl ⟨by rw [hplain]; omega, ?_⟩
      rw [hlower, hplain, lowerAscii, if_pos (by omega)]
      rfl
    · dsimp only at hhas
      obtain rfl : c = 0x212A := Fin.ext (show c.val = 0x212A by omega)
      exact .inl ⟨by decide, hlower⟩
    · have hplain : c.plain = c := plain_of_ne (by omega)
      refine .inr ⟨by rw [hplain]; omega, _, hlower ▸ List.mem_singleton_self _, ?_⟩
      show 0x80 ≤ ((c.val : Int) + r.2).toNat % 0x110000
      rw [Nat.mod_eq_of_lt (by omega)]
      omega
  | none =>
    have hlower : c.lower = [c] := by simp [lower, hdotted, hfind]
    have hfixed : ∀ r ∈ lowerRuns, ¬r.1.has c.val = true := List.find?_eq_none.mp hfind
    have hletter : ¬(0x41 ≤ c.val ∧ c.val ≤ 0x5A) := by
      intro h
      refine hfixed (⟨0x41, 0x5A, 1⟩, 32) List.mem_cons_self (decide_eq_true ?_)
      exact ⟨h.1, h.2, Nat.mod_one _⟩
    have hkelvin : c.val ≠ 0x212A := by
      intro h
      have hmoved : ∃ r ∈ lowerRuns, r.1.has 0x212A = true := by decide +kernel
      obtain ⟨r, hr, hhas⟩ := hmoved
      exact hfixed r hr (h.symm ▸ hhas)
    have hplain : c.plain = c := plain_of_ne hkelvin
    by_cases hascii : c.val < 0x80
    · refine .inl ⟨by rwa [hplain], ?_⟩
      rw [hlower, hplain, lowerAscii, if_neg hletter]
    · refine .inr ⟨by rw [hplain]; omega, c, ?_, by omega⟩
      rw [hlower]
      exact List.mem_singleton_self c

theorem lower_of_plain {c : CodePoint} (h : c.plain.val < 0x80) : c.lower = [c.plain.lowerAscii] := by
  rcases lower_cases c with ⟨_, hlower⟩ | ⟨hbeyond, _⟩
  · exact hlower
  · omega

theorem isUpperFixed_of_isUpperAscii {c : CodePoint} (h : c.IsUpperAscii) :
    c.isUpperFixed = true := by
  have hruns : ∀ r ∈ upperRuns, r.first = 0x61 ∧ r.last = 0x7A ∨ 0x80 ≤ r.first := by
    decide +kernel
  obtain ⟨hascii, hletter⟩ := h
  rw [isUpperFixed, Bool.not_eq_true', List.any_eq_false]
  intro r hr hhas
  obtain ⟨hfirst, hlast, _⟩ := of_decide_eq_true hhas
  rcases hruns r hr with ⟨hstart, hend⟩ | hbeyond <;> omega

end CodePoint

namespace Text

/-- All of the text is below 128, without letters from `a` to `z`. -/
def IsUpperAscii (t : Text) : Prop := ∀ c ∈ t, c.IsUpperAscii

instance instDecidableIsUpperAscii (t : Text) : Decidable t.IsUpperAscii :=
  List.decidableBAll CodePoint.IsUpperAscii t

/-- A text in ASCII, Kelvin signs apart, is put in lower case letter by letter. -/
theorem lower_of_plain {t : Text} (h : ∀ c ∈ t, c.plain.val < 0x80) :
    t.lower = t.map fun c => c.plain.lowerAscii := by
  have hafter : ∀ (t before : Text), (∀ c ∈ t, c.plain.val < 0x80) →
      lowerAfter before t = t.map fun c => c.plain.lowerAscii := by
    intro t
    induction t with
    | nil => exact fun _ _ => rfl
    | cons c rest ih =>
      intro before h
      have hc := h c List.mem_cons_self
      have hsigma : c.val ≠ 0x3A3 := by
        intro hsigma
        rw [CodePoint.plain_of_ne (by omega)] at hc
        omega
      rw [lowerAfter, if_neg hsigma, CodePoint.lower_of_plain hc,
        ih _ fun d hd => h d (List.mem_cons_of_mem _ hd)]
      rfl
  exact hafter t [] h

/-- What is in ASCII once it is in lower case, is so before, Kelvin signs apart. -/
theorem plain_of_lower {t : Text} (h : ∀ d ∈ t.lower, d.val < 0x80) :
    ∀ c ∈ t, c.plain.val < 0x80 := by
  have hafter : ∀ (t before : Text), (∀ d ∈ lowerAfter before t, d.val < 0x80) →
      ∀ c ∈ t, c.plain.val < 0x80 := by
    intro t
    induction t with
    | nil => exact fun _ _ => List.forall_mem_nil _
    | cons c rest ih =>
      intro before h
      rw [lowerAfter, List.forall_mem_append] at h
      refine List.forall_mem_cons.mpr ⟨?_, ih _ h.2⟩
      by_cases hsigma : c.val = 0x3A3
      · exfalso
        have hhere := h.1
        rw [if_pos hsigma] at hhere
        split at hhere <;> exact absurd (hhere _ (List.mem_singleton_self _)) (by decide)
      · rcases CodePoint.lower_cases c with ⟨hascii, _⟩ | ⟨_, d, hd, hbeyond⟩
        · exact hascii
        · have hlt := h.1 d (by rwa [if_neg hsigma])
          omega
  exact hafter t [] h

theorem lower_of_isLowerAscii {t : Text} (h : ∀ c ∈ t, c.IsLowerAscii) : t.lower = t := by
  have hplain : ∀ c ∈ t, c.plain = c := fun c hc =>
    CodePoint.plain_of_ne (by have hlt := (h c hc).1; omega)
  have hfixed : ∀ c ∈ t, c.plain.lowerAscii = c := by
    intro c hc
    rw [hplain c hc]
    exact if_neg (h c hc).2
  calc t.lower = t.map fun c => c.plain.lowerAscii :=
        lower_of_plain fun c hc => by rw [hplain c hc]; exact (h c hc).1
    _ = t.map id := List.map_congr_left hfixed
    _ = t := List.map_id t

theorem isUpper_of_isUpperAscii {t : Text} (h : t.IsUpperAscii) : t.isUpper = true :=
  List.all_eq_true.mpr fun c hc => CodePoint.isUpperFixed_of_isUpperAscii (h c hc)

theorem lower_of_isUpperAscii {t : Text} (h : t.IsUpperAscii) :
    t.lower = t.map CodePoint.lowerAscii := by
  have hplain : ∀ c ∈ t, c.plain = c := fun c hc =>
    CodePoint.plain_of_ne (by have hlt := (h c hc).1; omega)
  calc t.lower = t.map fun c => c.plain.lowerAscii :=
        lower_of_plain fun c hc => by rw [hplain c hc]; exact (h c hc).1
    _ = t.map CodePoint.lowerAscii := List.map_congr_left fun c hc => by rw [hplain c hc]

end Text

end BorshWire
