import BorshWire.Encode.Error
import BorshWire.Wire.Write
import Mathlib.Data.List.Forall2
import Mathlib.Data.Option.Basic

/-!
# Outputs that are alike

Two steps are alike if they put out the same bytes and end alike: both well, with related results,
or both with related errors. Sequencing and loops keep this, so that two runs of the encoder can be
compared step by step.
-/

namespace BorshWire

variable {ε ε' α α' β β' : Type}

/-! ## Ends -/

/-- Both end well with related results, or both fail with related errors. -/
inductive SameEnd (E : ε → ε' → Prop) (A : α → β → Prop) : Except ε α → Except ε' β → Prop where
  | ok {a : α} {b : β} (h : A a b) : SameEnd E A (.ok a) (.ok b)
  | error {e : ε} {e' : ε'} (h : E e e') : SameEnd E A (.error e) (.error e')

namespace SameEnd

variable {E : ε → ε' → Prop} {A : α → β → Prop} {B : α' → β' → Prop}

theorem map {x : Except ε α} {y : Except ε' β} {f : α → α'} {g : β → β'} (h : SameEnd E A x y)
    (hfg : ∀ a b, A a b → B (f a) (g b)) : SameEnd E B (x.map f) (y.map g) := by
  cases h with
  | ok h => exact .ok (hfg _ _ h)
  | error h => exact .error h

theorem mapError {ε₁ ε₁' : Type} {E' : ε₁ → ε₁' → Prop} {x : Except ε α} {y : Except ε' β}
    {f : ε → ε₁} {g : ε' → ε₁'} (h : SameEnd E A x y) (hfg : ∀ e e', E e e' → E' (f e) (g e')) :
    SameEnd E' A (x.mapError f) (y.mapError g) := by
  cases h with
  | ok h => exact .ok h
  | error h => exact .error (hfg _ _ h)

theorem bind {x : Except ε α} {y : Except ε' β} {f : α → Except ε α'} {g : β → Except ε' β'}
    (h : SameEnd E A x y) (hfg : ∀ a b, A a b → SameEnd E B (f a) (g b)) :
    SameEnd E B (x >>= f) (y >>= g) := by
  cases h with
  | ok h => exact hfg _ _ h
  | error h => exact .error h

theorem refl {E : ε → ε → Prop} {A : α → α → Prop} (hE : ∀ e, E e e) (hA : ∀ a, A a a)
    (x : Except ε α) : SameEnd E A x x := by
  cases x with
  | ok a => exact .ok (hA a)
  | error e => exact .error (hE e)

theorem eq_ok_iff {x : Except ε α} {y : Except ε' α} (h : SameEnd E (· = ·) x y) {a : α} :
    x = .ok a ↔ y = .ok a := by
  cases h with
  | ok h => rw [h, Except.ok.injEq, Except.ok.injEq]
  | error _ => exact ⟨nofun, nofun⟩

theorem mapM {C : α' → β' → Prop} {f : α' → Except ε α} {g : β' → Except ε' β} {xs : List α'}
    {ys : List β'} (hfg : ∀ a b, C a b → SameEnd E A (f a) (g b)) (h : List.Forall₂ C xs ys) :
    SameEnd E (List.Forall₂ A) (xs.mapM f) (ys.mapM g) := by
  induction h with
  | nil => exact .ok .nil
  | cons hab _ ih =>
    simp only [List.mapM_cons]
    refine (hfg _ _ hab).bind fun a b hA => ih.bind fun as bs hAs => ?_
    exact .ok (.cons hA hAs)

end SameEnd

theorem mapM_eq_ok_iff_forall₂ {f : α → Except ε β} {xs : List α} {ys : List β} :
    xs.mapM f = .ok ys ↔ List.Forall₂ (fun x y => f x = .ok y) xs ys := by
  constructor
  · intro h
    induction xs generalizing ys with
    | nil =>
      obtain rfl := Except.ok.inj h
      exact .nil
    | cons x rest ih =>
      rw [List.mapM_cons] at h
      cases hx : f x with
      | error err => simp [hx, bind, Except.bind] at h
      | ok y =>
        cases hrest : rest.mapM f with
        | error err => simp [hx, hrest, bind, Except.bind] at h
        | ok others =>
          simp only [hx, hrest, bind, Except.bind, pure, Except.pure, Except.ok.injEq] at h
          exact h ▸ .cons hx (ih hrest)
  · intro h
    induction h with
    | nil => rfl
    | cons hx _ ih =>
      rw [List.mapM_cons, hx, ih]
      rfl

/-! ## Steps -/

namespace Output

/-- The same bytes, and ends that are alike. -/
structure Alike (E : ε → ε' → Prop) (A : α → β → Prop) (x : Output ε α) (y : Output ε' β) :
    Prop where
  bytes : x.bytes = y.bytes
  outcome : SameEnd E A x.outcome y.outcome

namespace Alike

variable {E : ε → ε' → Prop} {A : α → β → Prop} {B : α' → β' → Prop}

theorem fail {e : ε} {e' : ε'} (h : E e e') :
    Alike E A (Output.fail e : Output ε α) (Output.fail e' : Output ε' β) := ⟨rfl, .error h⟩

theorem pure {a : α} {b : β} (h : A a b) : Alike E A (Pure.pure a) (Pure.pure b) := ⟨rfl, .ok h⟩

theorem ofExcept {x : Except ε α} {y : Except ε' β} (h : SameEnd E A x y) :
    Alike E A (Output.ofExcept x) (Output.ofExcept y) := ⟨rfl, h⟩

theorem refl {E : ε → ε → Prop} {A : α → α → Prop} (hE : ∀ e, E e e) (hA : ∀ a, A a a)
    (x : Output ε α) : Alike E A x x := ⟨rfl, .refl hE hA _⟩

theorem bind {x : Output ε α} {y : Output ε' β} {f : α → Output ε α'} {g : β → Output ε' β'}
    (h : Alike E A x y) (hfg : ∀ a b, A a b → Alike E B (f a) (g b)) :
    Alike E B (x >>= f) (y >>= g) := by
  obtain ⟨bytes, outcome⟩ := x
  obtain ⟨bytes', outcome'⟩ := y
  obtain ⟨rfl, ho⟩ := h
  simp only [bind_eq]
  cases ho with
  | ok hA =>
    have hB := hfg _ _ hA
    exact ⟨congrArg (bytes ++ ·) hB.bytes, hB.outcome⟩
  | error hE => exact ⟨rfl, .error hE⟩

theorem forEach {C : α → β → Prop} {D : Unit → Unit → Prop} (hD : D () ())
    {f : α → Output ε Unit} {g : β → Output ε' Unit} {xs : List α} {ys : List β}
    (hfg : ∀ a b, C a b → Alike E D (f a) (g b)) (h : List.Forall₂ C xs ys) :
    Alike E D (Output.forEach f xs) (Output.forEach g ys) := by
  induction h with
  | nil => exact pure hD
  | cons hab _ ih => exact (hfg _ _ hab).bind fun _ _ _ => ih

theorem result {x : Output ε α} {y : Output ε' β} (h : Alike E A x y) :
    SameEnd E (· = ·) x.result y.result := by
  simp only [Output.result, h.bytes]
  exact h.outcome.map fun _ _ _ => rfl

end Alike

theorem forCount_eq_forEach (f : Nat → Output ε Unit) (first count : Nat) :
    forCount f first count = forEach f (List.range' first count) := by
  induction count generalizing first with
  | zero => rfl
  | succ count ih => rw [forCount, ih, List.range'_succ, forEach]

theorem forEach_map (f : α → Output ε Unit) (g : β → α) (xs : List β) :
    forEach f (xs.map g) = forEach (fun b => f (g b)) xs := by
  induction xs with
  | nil => rfl
  | cons b rest ih => rw [List.map_cons, forEach, forEach, ih]

end Output

/-- A sequence is gone through like the list of its items, once they are seen. -/
theorem Write.forItems_eq_forEach (refuse : Unreadable → ε) (items : Items)
    (f : Value → Output ε Unit) :
    Write.forItems refuse items f =
      Output.ofExcept (items.opened.mapError refuse) >>= Output.forEach f := by
  cases items with
  | listed values => rfl
  | spaced numbers =>
    show Output.forCount _ 0 numbers.length = Output.forEach f (numbers.toList.map Value.int)
    rw [Output.forEach_map, Progression.toList, Output.forEach_map, Output.forCount_eq_forEach,
      List.range_eq_range']
  | sealed count reason => rfl

theorem Write.forItems_of_opened {items : Items} {values : List Value}
    (h : items.opened = .ok values) (refuse : Unreadable → ε) (f : Value → Output ε Unit) :
    Write.forItems refuse items f = Output.forEach f values := by
  rw [forItems_eq_forEach, h]
  rfl

theorem Write.forItems_yields_iff {refuse : Unreadable → ε} {items : Items}
    {f : Value → Output ε Unit} {bytes : List UInt8} :
    (Write.forItems refuse items f).Yields bytes () ↔
      ∃ values, items.opened = .ok values ∧ (Output.forEach f values).Yields bytes () := by
  rw [forItems_eq_forEach, Output.yields_ofExcept_bind_iff]
  exact exists_congr fun values => and_congr_left fun _ => Output.mapError_eq_ok_iff

/-! ## Refusals of one kind -/

/-- Of the same kind; refusals without a kind are the same refusal. -/
def EncodeError.SameKind (e e' : EncodeError) : Prop :=
  e.kind? = e'.kind? ∧ (e.kind? = none → e = e')

theorem EncodeError.SameKind.refl (e : EncodeError) : e.SameKind e := ⟨rfl, fun _ => rfl⟩

/-- An encoding is refused with a kind. -/
def Encode.RefusedWith (r : Except EncodeError (List UInt8)) (kind : ErrorKind) : Prop :=
  ∃ err, r = .error err ∧ err.kind? = some kind

/-- Two encodings agree: the same bytes, or refusals of one kind. -/
abbrev Encode.Agree (x y : Except EncodeError (List UInt8)) : Prop :=
  SameEnd EncodeError.SameKind (· = ·) x y

end BorshWire
