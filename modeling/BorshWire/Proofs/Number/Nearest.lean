import BorshWire.Proofs.Number.Rounding
import Mathlib.Data.Nat.Dist
import Mathlib.Order.Monotone.Basic

/-!
# Rounding to the nearest word

`rounded_nearest`: the word that a ratio is rounded to, before it is cut off at infinity, is at least
as near to the ratio as any other word, and even if another one is just as near. Magnitudes are
counted in units of the last place of a subnormal number (`scaled`), and distances in that unit over
the denominator, so that all of them are integers. Words whose last bit stands at least as high as
that of the result are multiples of its unit, and among these the rounded quotient is the nearest;
all the others lie below the first word of this kind, which is no more than the ratio.
-/

namespace BorshWire

namespace BinaryFormat

/-! ## The magnitudes of words -/

variable {f : BinaryFormat}

/-- The magnitude of a word, in units of the last place of a subnormal number. -/
def scaled (f : BinaryFormat) (word : Nat) : Nat := (f.split word).1 * twoPow (f.split word).2

/-- A significand may be as great as the first one of the next binade. -/
theorem scaled_word {significand places : Nat} (hle : significand ≤ twoPow (f.fractionBits + 1))
    (hleading : places = 0 ∨ twoPow f.fractionBits ≤ significand) :
    f.scaled (places * twoPow f.fractionBits + significand) = significand * twoPow places := by
  by_cases hlt : significand < twoPow (f.fractionBits + 1)
  · rw [scaled, split_word ⟨hlt, hleading⟩]
  · -- the carry out of the significand is a step to the next binade
    have hdouble : twoPow (f.fractionBits + 1) = twoPow f.fractionBits * 2 := twoPow_add _ 1
    have hcarry : significand = twoPow f.fractionBits + twoPow f.fractionBits := by omega
    have hnext : places * twoPow f.fractionBits + significand =
        (places + 1) * twoPow f.fractionBits + twoPow f.fractionBits := by
      rw [hcarry, Nat.succ_mul, Nat.add_assoc]
    have hnormal : f.Normalized (twoPow f.fractionBits) (places + 1) := by
      have hpos := twoPow_pos f.fractionBits
      exact ⟨by omega, .inr (Nat.le_refl _)⟩
    rw [hnext, scaled, split_word hnormal, twoPow_add places 1, hcarry]
    show twoPow f.fractionBits * (twoPow places * 2) = _
    rw [← Nat.mul_assoc, Nat.mul_two, Nat.add_mul]

theorem scaled_succ (f : BinaryFormat) (word : Nat) :
    f.scaled (word + 1) = f.scaled word + twoPow (f.split word).2 := by
  obtain ⟨hlt, hleading⟩ := f.normalized_split word
  have hword := f.word_split word
  have hnext : word + 1 = (f.split word).2 * twoPow f.fractionBits + ((f.split word).1 + 1) := by
    omega
  rw [hnext, scaled_word hlt (hleading.imp_right Nat.le_succ_of_le), Nat.succ_mul]
  rfl

theorem scaled_strictMono (f : BinaryFormat) : StrictMono f.scaled := by
  refine strictMono_nat_of_lt_succ fun word => ?_
  rw [scaled_succ]
  exact Nat.lt_add_of_pos_right (twoPow_pos _)

theorem scaled_zero (f : BinaryFormat) : f.scaled 0 = 0 := by
  have h := scaled_word (f := f) (Nat.zero_le _) (.inl rfl)
  simpa using h

/-! ## Rounding a quotient -/

theorem roundQuotient_le {num den bound : Nat} (h : num < den * bound) :
    roundQuotient num den ≤ bound := by
  have hlt : num / den < bound := Nat.div_lt_of_lt_mul h
  unfold roundQuotient
  dsimp only
  split <;> omega

theorem le_roundQuotient {num den bound : Nat} (hden : 0 < den) (h : den * bound ≤ num) :
    bound ≤ roundQuotient num den := by
  have hle : bound ≤ num / den := (Nat.le_div_iff_mul_le hden).mpr (by rwa [Nat.mul_comm])
  unfold roundQuotient
  dsimp only
  split <;> omega

/-- No multiple of the denominator is nearer than the rounded quotient, and if another one is as
near, the rounded quotient is even. -/
theorem roundQuotient_nearest (num k : Nat) {den : Nat} (hden : 0 < den) :
    Nat.dist (roundQuotient num den * den) num ≤ Nat.dist (k * den) num ∧
      (Nat.dist (k * den) num = Nat.dist (roundQuotient num den * den) num →
        k = roundQuotient num den ∨ roundQuotient num den % 2 = 0) := by
  have hnum := Nat.div_add_mod' num den
  have hrem := Nat.mod_lt num hden
  -- the quotient and its successor are the neighbours, all others are further by a denominator
  have hnext : (num / den + 1) * den = num / den * den + den := Nat.succ_mul _ _
  have hbelow : k < num / den → k * den + den ≤ num / den * den := by
    intro h
    rw [← Nat.succ_mul]
    exact Nat.mul_le_mul_right den h
  have habove : num / den + 1 < k → (num / den + 1) * den + den ≤ k * den := by
    intro h
    rw [← Nat.succ_mul]
    exact Nat.mul_le_mul_right den h
  unfold roundQuotient Nat.dist
  dsimp only
  by_cases heq : k = num / den
  · subst heq
    split <;> omega
  by_cases heq' : k = num / den + 1
  · subst heq'
    split <;> omega
  have hother : k < num / den ∨ num / den + 1 < k := by omega
  rcases hother with h | h
  · have hfar := hbelow h
    split <;> omega
  · have hfar := habove h
    split <;> omega

/-! ## The places of the result -/

theorem exists_floorLog {num den : Nat} (hnum : 0 < num) (hden : 0 < den) :
    ∃ a b : Nat, floorLog num den = (a : Int) - b ∧ den * twoPow a ≤ num * twoPow b ∧
      num * twoPow b < den * twoPow (a + 1) := by
  have hle : den ≤ num * twoPow den := by
    have hpow : den < twoPow den := Nat.lt_two_pow_self
    have hmul : 1 * twoPow den ≤ num * twoPow den := Nat.mul_le_mul_right _ hnum
    omega
  obtain ⟨hlow, hhigh⟩ := twoPow_log2 (Nat.div_pos hle hden)
  rw [Nat.le_div_iff_mul_le hden, Nat.mul_comm] at hlow
  rw [Nat.div_lt_iff_lt_mul hden, Nat.mul_comm (twoPow _)] at hhigh
  exact ⟨_, den, floorLog_eq hnum hden hlow hhigh, hlow, hhigh⟩

/-- The number of places by which the last bit of the rounded ratio stands above the last place of a
subnormal number. -/
def places (f : BinaryFormat) (num den : Nat) : Nat :=
  (floorLog num den - f.fractionBits + f.lowest).toNat

/-- The word that a ratio is rounded to, before it is cut off at infinity. -/
def rounded (f : BinaryFormat) (num den : Nat) : Nat :=
  f.places num den * twoPow f.fractionBits +
    roundQuotient (num * twoPow f.lowest) (den * twoPow (f.places num den))

theorem roundRatio_of_pos (f : BinaryFormat) {num : Nat} (hnum : 0 < num) (den : Nat) :
    f.roundRatio num den = min (f.rounded num den) f.infinity :=
  if_neg (Nat.ne_of_gt hnum)

/-- The ratio has no more bits than fit above the last place of the result, and fills them unless
this is the lowest place. -/
theorem places_spec (f : BinaryFormat) {num den : Nat} (hnum : 0 < num) (hden : 0 < den) :
    num * twoPow f.lowest < den * twoPow (f.places num den) * twoPow (f.fractionBits + 1) ∧
      (f.places num den = 0 ∨
        den * twoPow (f.places num den) * twoPow f.fractionBits ≤ num * twoPow f.lowest) := by
  obtain ⟨a, b, hlog, hlow, hhigh⟩ := exists_floorLog hnum hden
  have hplaces : f.places num den = a + f.lowest - (b + f.fractionBits) := by
    rw [places, hlog]
    omega
  rw [hplaces]
  constructor
  · refine Nat.lt_of_mul_lt_mul_right (a := twoPow b) ?_
    calc num * twoPow f.lowest * twoPow b = num * twoPow b * twoPow f.lowest := Nat.mul_right_comm ..
      _ < den * twoPow (a + 1) * twoPow f.lowest := Nat.mul_lt_mul_of_pos_right hhigh (twoPow_pos _)
      _ = den * twoPow (a + 1 + f.lowest) := by rw [Nat.mul_assoc, ← twoPow_add]
      _ ≤ den * twoPow (a + f.lowest - (b + f.fractionBits) + (f.fractionBits + 1) + b) :=
        Nat.mul_le_mul_left _ (twoPow_le (by omega))
      _ = _ := by rw [twoPow_add, twoPow_add]; simp only [Nat.mul_assoc]
  · by_cases hsub : a + f.lowest ≤ b + f.fractionBits
    · exact .inl (Nat.sub_eq_zero_of_le hsub)
    · right
      refine Nat.le_of_mul_le_mul_right ?_ (twoPow_pos b)
      calc den * twoPow (a + f.lowest - (b + f.fractionBits)) * twoPow f.fractionBits * twoPow b
          = den * twoPow (a + f.lowest - (b + f.fractionBits) + f.fractionBits + b) := by
            rw [twoPow_add, twoPow_add]; simp only [Nat.mul_assoc]
        _ = den * twoPow a * twoPow f.lowest := by
            rw [Nat.mul_assoc, ← twoPow_add]; congr 2; omega
        _ ≤ num * twoPow b * twoPow f.lowest := Nat.mul_le_mul_right _ hlow
        _ = num * twoPow f.lowest * twoPow b := Nat.mul_right_comm ..

/-! ## The nearest word -/

/-- The rounded quotient is a significand, or the first one of the next binade. -/
theorem rounded_significand (f : BinaryFormat) {num den : Nat} (hnum : 0 < num) (hden : 0 < den) :
    roundQuotient (num * twoPow f.lowest) (den * twoPow (f.places num den)) ≤
        twoPow (f.fractionBits + 1) ∧
      (f.places num den = 0 ∨ twoPow f.fractionBits ≤
        roundQuotient (num * twoPow f.lowest) (den * twoPow (f.places num den))) := by
  obtain ⟨hlt, hfills⟩ := f.places_spec hnum hden
  refine ⟨roundQuotient_le hlt, hfills.imp_right fun h => ?_⟩
  exact le_roundQuotient (Nat.mul_pos hden (twoPow_pos _)) h

theorem exists_multiple {word places : Nat} (h : places ≤ (f.split word).2) :
    ∃ k, f.scaled word = k * twoPow places := by
  obtain ⟨extra, hextra⟩ := Nat.exists_eq_add_of_le h
  refine ⟨(f.split word).1 * twoPow extra, ?_⟩
  rw [scaled, hextra, twoPow_add, Nat.mul_comm (twoPow places), Nat.mul_assoc]

/-- Any other word lies below all of those whose last bit stands there. -/
theorem scaled_lt_of_lt {word places : Nat} (h : (f.split word).2 < places) :
    f.scaled word < twoPow f.fractionBits * twoPow places := by
  have hlt := (f.normalized_split word).lt
  calc f.scaled word < twoPow (f.fractionBits + 1) * twoPow (f.split word).2 :=
        Nat.mul_lt_mul_of_pos_right hlt (twoPow_pos _)
    _ = twoPow f.fractionBits * twoPow ((f.split word).2 + 1) := by
        rw [← twoPow_add, ← twoPow_add, Nat.add_right_comm, Nat.add_assoc]
    _ ≤ twoPow f.fractionBits * twoPow places := Nat.mul_le_mul_left _ (twoPow_le h)

/-- No word is nearer to a ratio than the one that it is rounded to, and if another one is as near,
that one is even. Distances are taken in units of the last place, over the denominator. -/
theorem rounded_nearest {f : BinaryFormat} (hf : 0 < f.fractionBits) {num den : Nat}
    (hnum : 0 < num) (hden : 0 < den) (word : Nat) :
    Nat.dist (f.scaled (f.rounded num den) * den) (num * twoPow f.lowest) ≤
        Nat.dist (f.scaled word * den) (num * twoPow f.lowest) ∧
      (Nat.dist (f.scaled word * den) (num * twoPow f.lowest) =
          Nat.dist (f.scaled (f.rounded num den) * den) (num * twoPow f.lowest) →
        word = f.rounded num den ∨ f.rounded num den % 2 = 0) := by
  obtain ⟨hle, hleading⟩ := f.rounded_significand hnum hden
  have hunit : 0 < den * twoPow (f.places num den) := Nat.mul_pos hden (twoPow_pos _)
  have hrounded : f.scaled (f.rounded num den) * den =
      roundQuotient (num * twoPow f.lowest) (den * twoPow (f.places num den)) *
        (den * twoPow (f.places num den)) := by
    rw [rounded, scaled_word hle hleading, Nat.mul_assoc, Nat.mul_comm (twoPow _) den]
  rw [hrounded]
  by_cases hplaces : f.places num den ≤ (f.split word).2
  · obtain ⟨k, hk⟩ := exists_multiple hplaces
    have hword : f.scaled word * den = k * (den * twoPow (f.places num den)) := by
      rw [hk, Nat.mul_assoc, Nat.mul_comm (twoPow _) den]
    obtain ⟨hnearest, heven⟩ := roundQuotient_nearest (num * twoPow f.lowest) k hunit
    rw [hword]
    refine ⟨hnearest, fun h => (heven h).imp (fun hquotient => ?_) fun hparity => ?_⟩
    · -- equal multiples are equal magnitudes
      apply f.scaled_strictMono.injective
      rw [rounded, scaled_word hle hleading, hk, hquotient]
    · have hpow : twoPow f.fractionBits % 2 = 0 :=
        Nat.mod_eq_zero_of_dvd (dvd_pow_self 2 (Nat.ne_of_gt hf))
      rw [rounded, Nat.add_mod, Nat.mul_mod, hpow, hparity, Nat.mul_zero]
  · -- the first word with the places of the result is between this one and the ratio
    have hbelow := scaled_lt_of_lt (Nat.not_le.mp hplaces)
    have hfills := (f.places_spec hnum hden).2.resolve_left (by omega)
    have hnearest :=
      (roundQuotient_nearest (num * twoPow f.lowest) (twoPow f.fractionBits) hunit).1
    have hlt : f.scaled word * den <
        twoPow f.fractionBits * (den * twoPow (f.places num den)) := by
      calc f.scaled word * den < twoPow f.fractionBits * twoPow (f.places num den) * den :=
            Nat.mul_lt_mul_of_pos_right hbelow hden
        _ = _ := by rw [Nat.mul_assoc, Nat.mul_comm (twoPow _) den]
    rw [Nat.mul_comm (den * _)] at hfills
    unfold Nat.dist at hnearest ⊢
    constructor
    · omega
    · omega

end BinaryFormat

end BorshWire
