/-!
# Outputs

A writing step puts out bytes and then ends, well or with an error. What it put out before an
error is kept: a caller that goes on with the same buffer finds those bytes in it. Steps form a
lawful monad, and the result of a step is its bytes exactly if it ends well.
-/

namespace BorshWire

/-- The bytes that a step puts out, and how it ends. -/
structure Output (ε α : Type) where
  bytes : List UInt8
  outcome : Except ε α

namespace Output

variable {ε ε' α β : Type}

/-- Puts out nothing and fails. -/
def fail (e : ε) : Output ε α := ⟨[], .error e⟩

/-- Puts out bytes and ends well. -/
def emit (bytes : List UInt8) : Output ε Unit := ⟨bytes, .ok ()⟩

/-- Puts out nothing and ends as given. -/
def ofExcept (r : Except ε α) : Output ε α := ⟨[], r⟩

/-- Two steps one after the other; the second is not taken if the first fails. -/
def andThen (x : Output ε α) (f : α → Output ε β) : Output ε β :=
  match x.outcome with
  | .error e => ⟨x.bytes, .error e⟩
  | .ok a => ⟨x.bytes ++ (f a).bytes, (f a).outcome⟩

instance : Monad (Output ε) where
  pure a := ⟨[], .ok a⟩
  bind := andThen

theorem bind_eq (x : Output ε α) (f : α → Output ε β) : (x >>= f) = x.andThen f := rfl

@[simp] theorem pure_andThen (a : α) (f : α → Output ε β) :
    (⟨[], .ok a⟩ : Output ε α).andThen f = f a := rfl

@[simp] theorem andThen_pure (x : Output ε α) : x.andThen (fun a => ⟨[], .ok a⟩) = x := by
  obtain ⟨bytes, outcome⟩ := x
  cases outcome with
  | error e => rfl
  | ok a => simp only [andThen, List.append_nil]

theorem andThen_assoc {γ : Type} (x : Output ε α) (f : α → Output ε β) (g : β → Output ε γ) :
    (x.andThen f).andThen g = x.andThen fun a => (f a).andThen g := by
  obtain ⟨bytes, outcome⟩ := x
  cases outcome with
  | error e => rfl
  | ok a =>
    simp only [andThen]
    cases (f a).outcome with
    | error e => rfl
    | ok b => simp only [List.append_assoc]

instance : LawfulMonad (Output ε) :=
  LawfulMonad.mk' (Output ε) andThen_pure pure_andThen andThen_assoc

/-- The same step with its errors seen as errors of another class. -/
def mapError (f : ε → ε') (x : Output ε α) : Output ε' α := ⟨x.bytes, x.outcome.mapError f⟩

/-- One step for each item of a list. -/
def forEach (f : α → Output ε Unit) : List α → Output ε Unit
  | [] => pure ()
  | a :: rest => do
    f a
    forEach f rest

/-- One step for each of `count` numbers from `first` on. -/
def forCount (f : Nat → Output ε Unit) (first : Nat) : Nat → Output ε Unit
  | 0 => pure ()
  | count + 1 => do
    f first
    forCount f (first + 1) count

/-- The step puts out these bytes and ends well with this result. -/
def Yields (x : Output ε α) (bytes : List UInt8) (a : α) : Prop := x = ⟨bytes, .ok a⟩

theorem mapError_eq_ok_iff {f : ε → ε'} {r : Except ε α} {a : α} :
    r.mapError f = .ok a ↔ r = .ok a := by
  cases r with
  | error e => exact ⟨nofun, nofun⟩
  | ok b =>
    show (Except.ok b : Except ε' α) = .ok a ↔ (Except.ok b : Except ε α) = .ok a
    rw [Except.ok.injEq, Except.ok.injEq]

@[simp] theorem yields_pure_iff {a b : α} {bytes : List UInt8} :
    (pure a : Output ε α).Yields bytes b ↔ bytes = [] ∧ a = b := by
  constructor
  · intro h
    obtain ⟨hbytes, hab⟩ := Output.mk.inj h
    exact ⟨hbytes.symm, Except.ok.inj hab⟩
  · rintro ⟨rfl, rfl⟩
    rfl

@[simp] theorem yields_emit_iff {own bytes : List UInt8} :
    (emit own : Output ε Unit).Yields bytes () ↔ own = bytes :=
  ⟨fun h => (Output.mk.inj h).1, fun h => h ▸ rfl⟩

theorem yields_ofExcept_iff {r : Except ε α} {bytes : List UInt8} {a : α} :
    (ofExcept r).Yields bytes a ↔ bytes = [] ∧ r = .ok a := by
  constructor
  · intro h
    obtain ⟨hbytes, hr⟩ := Output.mk.inj h
    exact ⟨hbytes.symm, hr⟩
  · rintro ⟨rfl, rfl⟩
    rfl

@[simp] theorem not_yields_fail {e : ε} {bytes : List UInt8} {a : α} :
    ¬(fail e : Output ε α).Yields bytes a := nofun

theorem yields_mapError_iff {f : ε → ε'} {x : Output ε α} {bytes : List UInt8} {a : α} :
    (x.mapError f).Yields bytes a ↔ x.Yields bytes a := by
  obtain ⟨own, outcome⟩ := x
  rw [Yields, Yields, mapError, Output.mk.injEq, Output.mk.injEq, mapError_eq_ok_iff]

/-- Two steps put out the bytes of the one and then those of the other. -/
theorem yields_bind_iff {x : Output ε α} {f : α → Output ε β} {bytes : List UInt8} {b : β} :
    (x >>= f).Yields bytes b ↔
      ∃ front a back, x.Yields front a ∧ (f a).Yields back b ∧ bytes = front ++ back := by
  obtain ⟨own, outcome⟩ := x
  cases outcome with
  | error e => exact ⟨nofun, fun ⟨_, _, _, h, _⟩ => nomatch h⟩
  | ok a =>
    constructor
    · intro h
      obtain ⟨hbytes, hb⟩ := Output.mk.inj h
      refine ⟨own, a, (f a).bytes, rfl, ?_, hbytes.symm⟩
      rw [Yields, ← hb]
    · rintro ⟨front, a', back, hx, hf, rfl⟩
      obtain ⟨rfl, ha⟩ := Output.mk.inj hx
      obtain rfl := Except.ok.inj ha
      have hf' : f a = ⟨back, .ok b⟩ := hf
      show (⟨own ++ (f a).bytes, (f a).outcome⟩ : Output ε β) = _
      rw [hf']

/-- What is only looked up puts out nothing. -/
theorem yields_ofExcept_bind_iff {r : Except ε α} {f : α → Output ε β} {bytes : List UInt8}
    {b : β} : (ofExcept r >>= f).Yields bytes b ↔ ∃ a, r = .ok a ∧ (f a).Yields bytes b := by
  cases r with
  | error e => exact ⟨nofun, fun ⟨_, h, _⟩ => nomatch h⟩
  | ok a => exact ⟨fun h => ⟨a, rfl, h⟩, fun ⟨_, ha, h⟩ => Except.ok.inj ha ▸ h⟩

@[simp] theorem yields_forEach_nil_iff {f : α → Output ε Unit} {bytes : List UInt8} :
    (forEach f []).Yields bytes () ↔ bytes = [] := by
  rw [forEach, yields_pure_iff]
  exact and_iff_left rfl

theorem yields_forEach_cons_iff {f : α → Output ε Unit} {a : α} {rest : List α}
    {bytes : List UInt8} :
    (forEach f (a :: rest)).Yields bytes () ↔
      ∃ front back, (f a).Yields front () ∧ (forEach f rest).Yields back () ∧
        bytes = front ++ back := by
  rw [forEach, yields_bind_iff]
  exact ⟨fun ⟨front, _, back, h⟩ => ⟨front, back, h⟩, fun ⟨front, back, h⟩ => ⟨front, (), back, h⟩⟩

/-- The bytes of a step that ends well. -/
def result (x : Output ε α) : Except ε (List UInt8) := x.outcome.map fun _ => x.bytes

@[simp] theorem result_fail (e : ε) : (fail e : Output ε α).result = .error e := rfl

theorem result_eq_ok_iff {x : Output ε α} {bytes : List UInt8} :
    x.result = .ok bytes ↔ x.bytes = bytes ∧ ∃ a, x.outcome = .ok a := by
  obtain ⟨own, outcome⟩ := x
  cases outcome with
  | error e => exact ⟨nofun, fun h => nomatch h.2.choose_spec⟩
  | ok a =>
    exact ⟨fun h => ⟨Except.ok.inj h, a, rfl⟩, fun h => congrArg Except.ok h.1⟩

theorem result_eq_ok_iff_yields {x : Output ε Unit} {bytes : List UInt8} :
    x.result = .ok bytes ↔ x.Yields bytes () := by
  obtain ⟨own, outcome⟩ := x
  rw [result_eq_ok_iff]
  constructor
  · rintro ⟨rfl, a, rfl⟩
    rfl
  · intro h
    obtain ⟨rfl, ha⟩ := Output.mk.inj h
    exact ⟨rfl, (), ha⟩

theorem result_eq_error_iff {x : Output ε α} {e : ε} :
    x.result = .error e ↔ x.outcome = .error e := by
  obtain ⟨own, outcome⟩ := x
  cases outcome with
  | error e' => exact ⟨fun h => congrArg Except.error (Except.error.inj h),
      fun h => congrArg Except.error (Except.error.inj h)⟩
  | ok a => exact ⟨nofun, nofun⟩

end Output

end BorshWire
