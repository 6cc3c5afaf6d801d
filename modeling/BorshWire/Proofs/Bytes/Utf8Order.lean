import BorshWire.Encode.Walk

/-!
# UTF-8 keeps the order

Texts are ordered by their code points, and bytes lexicographically. `Text.lt_iff_of_utf8?`: of texts
and their UTF-8 bytes the two orders are the same. The bytes of two code points differ first in the
lead byte or in a continuation byte after the same ones, and there the greater code point has the
greater byte, whatever follows.
-/

namespace BorshWire

namespace CodePoint

/-! ## Code points -/

/-- The first byte decides, or else what follows it. -/
theorem byteOf_cons_lt {m n : Nat} (hn : n < 256) {x y : List UInt8}
    (h : m < n ∨ m = n ∧ x < y) : byteOf m :: x < byteOf n :: y := by
  rw [List.cons_lt_cons_iff]
  refine h.imp (fun hmn => ?_) fun ⟨hmn, hxy⟩ => ⟨by rw [hmn], hxy⟩
  rw [UInt8.lt_iff_toNat_lt, byteOf, byteOf, UInt8.toNat_ofNat', UInt8.toNat_ofNat',
    Nat.mod_eq_of_lt hn, Nat.mod_eq_of_lt (by omega)]
  exact hmn

theorem continuation_lt {m n : Nat} (h : m % 0x40 < n % 0x40) (x y : List UInt8) :
    byteOf (0x80 + m % 0x40) :: x < byteOf (0x80 + n % 0x40) :: y :=
  byteOf_cons_lt (by omega) (.inl (by omega))

theorem continuation_two_lt {m n : Nat} (h : m % 0x1000 < n % 0x1000) (x y : List UInt8) :
    byteOf (0x80 + m / 0x40 % 0x40) :: byteOf (0x80 + m % 0x40) :: x <
      byteOf (0x80 + n / 0x40 % 0x40) :: byteOf (0x80 + n % 0x40) :: y := by
  refine byteOf_cons_lt (by omega) ?_
  by_cases heq : m / 0x40 % 0x40 = n / 0x40 % 0x40
  · exact .inr ⟨by omega, continuation_lt (by omega) x y⟩
  · exact .inl (by omega)

theorem continuation_three_lt {m n : Nat} (h : m % 0x40000 < n % 0x40000) (x y : List UInt8) :
    byteOf (0x80 + m / 0x1000 % 0x40) :: byteOf (0x80 + m / 0x40 % 0x40) ::
        byteOf (0x80 + m % 0x40) :: x <
      byteOf (0x80 + n / 0x1000 % 0x40) :: byteOf (0x80 + n / 0x40 % 0x40) ::
        byteOf (0x80 + n % 0x40) :: y := by
  refine byteOf_cons_lt (by omega) ?_
  by_cases heq : m / 0x1000 % 0x40 = n / 0x1000 % 0x40
  · exact .inr ⟨by omega, continuation_two_lt (by omega) x y⟩
  · exact .inl (by omega)

/-- The bytes of a greater code point are greater, whatever follows on both sides. -/
theorem utf8_append_lt {c d : CodePoint} (h : c < d) (x y : List UInt8) :
    c.utf8 ++ x < d.utf8 ++ y := by
  have hcd : c.val < d.val := h
  have hd := d.isLt
  unfold utf8
  dsimp only
  -- more bytes have a greater lead byte; in as many the lead byte or the rest is greater
  split
  · split
    · exact byteOf_cons_lt (by omega) (.inl hcd)
    · split
      · exact byteOf_cons_lt (by omega) (.inl (by omega))
      · split <;> exact byteOf_cons_lt (by omega) (.inl (by omega))
  · rw [if_neg (show ¬d.val < 0x80 by omega)]
    split
    · split
      · refine byteOf_cons_lt (by omega) ?_
        by_cases heq : c.val / 0x40 = d.val / 0x40
        · exact .inr ⟨by omega, continuation_lt (by omega) x y⟩
        · exact .inl (by omega)
      · split <;> exact byteOf_cons_lt (by omega) (.inl (by omega))
    · rw [if_neg (show ¬d.val < 0x800 by omega)]
      split
      · split
        · refine byteOf_cons_lt (by omega) ?_
          by_cases heq : c.val / 0x1000 = d.val / 0x1000
          · exact .inr ⟨by omega, continuation_two_lt (by omega) x y⟩
          · exact .inl (by omega)
        · exact byteOf_cons_lt (by omega) (.inl (by omega))
      · rw [if_neg (show ¬d.val < 0x10000 by omega)]
        refine byteOf_cons_lt (by omega) ?_
        by_cases heq : c.val / 0x40000 = d.val / 0x40000
        · exact .inr ⟨by omega, continuation_three_lt (by omega) x y⟩
        · exact .inl (by omega)

theorem utf8_ne_nil (c : CodePoint) : c.utf8 ≠ [] := by
  unfold utf8
  dsimp only
  split
  · exact List.cons_ne_nil _ _
  · split
    · exact List.cons_ne_nil _ _
    · split <;> exact List.cons_ne_nil _ _

end CodePoint

/-! ## Texts -/

open Encode (textLE textLE_cons)

/-- The bytes of a text that comes later are greater. -/
theorem Text.flatMap_utf8_lt {s t : Text} (h : textLE s t = true) (hne : s ≠ t) :
    s.flatMap CodePoint.utf8 < t.flatMap CodePoint.utf8 := by
  induction s generalizing t with
  | nil =>
    cases t with
    | nil => exact absurd rfl hne
    | cons d t =>
      obtain ⟨b, rest, hbytes⟩ := List.exists_cons_of_ne_nil d.utf8_ne_nil
      rw [List.flatMap_nil, List.flatMap_cons, hbytes]
      exact List.nil_lt_cons _ _
  | cons c s ih =>
    cases t with
    | nil => cases h
    | cons d t =>
      rw [List.flatMap_cons, List.flatMap_cons]
      rcases textLE_cons.mp h with hcd | ⟨rfl, hst⟩
      · exact CodePoint.utf8_append_lt hcd _ _
      · exact List.append_left_lt (ih hst fun heq => hne (by rw [heq]))

theorem Text.eq_flatMap_of_utf8? {t : Text} {data : List UInt8} (h : t.utf8? = some data) :
    data = t.flatMap CodePoint.utf8 := by
  unfold utf8? at h
  split at h
  · cases h
  · exact (Option.some.inj h).symm

/-- The order of texts is that of their bytes. -/
theorem Text.lt_iff_of_utf8? {s t : Text} {x y : List UInt8} (hs : s.utf8? = some x)
    (ht : t.utf8? = some y) : x < y ↔ textLE s t = true ∧ s ≠ t := by
  rw [eq_flatMap_of_utf8? hs, eq_flatMap_of_utf8? ht]
  constructor
  · intro hlt
    have hne : s ≠ t := by
      rintro rfl
      exact List.lt_irrefl _ hlt
    rcases (Bool.or_eq_true _ _).mp (Encode.textLE_total s t) with hst | hts
    · exact ⟨hst, hne⟩
    · exact absurd (flatMap_utf8_lt hts hne.symm) (List.lt_asymm hlt)
  · rintro ⟨hle, hne⟩
    exact flatMap_utf8_lt hle hne

end BorshWire
