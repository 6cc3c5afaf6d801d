import BorshWire.Encode.Error
import BorshWire.Proofs.Simulation.Output

/-!
# Steps that fail in known ways

A step fails only for given reasons if every error that it ends with is one of them. Sequencing and
loops keep this, and what follows a step may use how that step ended.
-/

namespace BorshWire

theorem exists_error_of_mapM {ε α β : Type} {f : α → Except ε β} {xs : List α} {err : ε}
    (h : xs.mapM f = .error err) : ∃ x ∈ xs, f x = .error err := by
  induction xs with
  | nil => cases h
  | cons x rest ih =>
    rw [List.mapM_cons] at h
    cases hx : f x with
    | error e =>
      rw [hx] at h
      obtain rfl := Except.error.inj h
      exact ⟨x, List.mem_cons_self, hx⟩
    | ok b =>
      cases hrest : rest.mapM f with
      | error e =>
        rw [hx, hrest] at h
        obtain rfl := Except.error.inj h
        obtain ⟨y, hy, hfy⟩ := ih hrest
        exact ⟨y, List.mem_cons_of_mem x hy, hfy⟩
      | ok bs =>
        rw [hx, hrest] at h
        cases h

namespace Output

variable {ε α β : Type}

theorem outcome_of_bind {x : Output ε Unit} {f : Unit → Output ε β} {b : β}
    (h : (x >>= f).outcome = .ok b) : (f ()).outcome = .ok b := by
  obtain ⟨bytes, outcome⟩ := x
  cases outcome with
  | error err => cases h
  | ok a => exact h

/-- Whatever error the step ends with is one of these. -/
def FailsOnly (P : ε → Prop) (x : Output ε α) : Prop := ∀ err, x.outcome = .error err → P err

namespace FailsOnly

variable {P Q : ε → Prop}

theorem pure (a : α) : (Pure.pure a : Output ε α).FailsOnly P := nofun

theorem emit (bytes : List UInt8) : (Output.emit bytes : Output ε Unit).FailsOnly P := nofun

theorem fail {e : ε} (h : P e) : (Output.fail e : Output ε α).FailsOnly P := by
  intro err herr
  obtain rfl := Except.error.inj herr
  exact h

theorem ofExcept {r : Except ε α} (h : ∀ err, r = .error err → P err) :
    (Output.ofExcept r).FailsOnly P := h

theorem of_yields {x : Output ε α} {bytes : List UInt8} {a : α} (h : x.Yields bytes a) :
    x.FailsOnly P := by
  intro err herr
  rw [h] at herr
  cases herr

theorem mono {x : Output ε α} (h : x.FailsOnly P) (hPQ : ∀ err, P err → Q err) :
    x.FailsOnly Q := fun err herr => hPQ err (h err herr)

theorem mapError {ε' : Type} {P : ε' → Prop} {g : ε → ε'} {x : Output ε α}
    (h : x.FailsOnly fun err => P (g err)) : (x.mapError g).FailsOnly P := by
  obtain ⟨bytes, outcome⟩ := x
  intro err herr
  cases outcome with
  | error e =>
    obtain rfl := Except.error.inj herr
    exact h e rfl
  | ok a => cases herr

theorem bind {x : Output ε α} {f : α → Output ε β} (h : x.FailsOnly P)
    (hf : ∀ a, x.outcome = .ok a → (f a).FailsOnly P) : (x >>= f).FailsOnly P := by
  obtain ⟨bytes, outcome⟩ := x
  cases outcome with
  | error e => exact fun err herr => h err (congrArg Except.error (Except.error.inj herr))
  | ok a => exact fun err herr => hf a rfl err herr

theorem forEach {f : α → Output ε Unit} {xs : List α} (h : ∀ a ∈ xs, (f a).FailsOnly P) :
    (Output.forEach f xs).FailsOnly P := by
  induction xs with
  | nil => exact pure ()
  | cons a rest ih =>
    refine (h a List.mem_cons_self).bind fun _ _ => ?_
    exact ih fun b hb => h b (List.mem_cons_of_mem a hb)

theorem ofExcept_mapError {ε' : Type} {P : ε' → Prop} {g : ε → ε'} {r : Except ε α}
    (h : ∀ err, r = .error err → P (g err)) : (Output.ofExcept (r.mapError g)).FailsOnly P :=
  mapError (x := Output.ofExcept r) h

theorem forItems {refuse : Unreadable → ε} {f : Value → Output ε Unit} {items : Items}
    (hunseen : ∀ reason, items.opened = .error reason → P (refuse reason))
    (h : ∀ v ∈ items.toList, (f v).FailsOnly P) : (Write.forItems refuse items f).FailsOnly P := by
  rw [Write.forItems_eq_forEach]
  refine (ofExcept_mapError hunseen).bind fun values hvalues => ?_
  rw [← Items.toList_of_opened (mapError_eq_ok_iff.mp hvalues)]
  exact forEach h

end FailsOnly

end Output

end BorshWire
