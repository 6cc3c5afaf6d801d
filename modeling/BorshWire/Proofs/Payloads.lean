import BorshWire.Proofs.Context

/-!
# Payloads of variants

`Encoder.payload_composes`: an object of one member that names a variant with a payload is written as
the discriminant of the variant and then its value as the payload, one level deeper, and accepted
exactly if the payload is. The one exception is a value that is nothing: it counts as a payload that
is missing. So the variants around options and positions without bytes are not all there
(`Encode.TakesNull`), although nothing is what such a payload can be.
-/

namespace BorshWire

theorem Output.ofExcept_ok_bind {ε α β : Type} (a : α) (f : α → Output ε β) :
    (ofExcept (.ok a) >>= f) = f a := rfl

namespace Encode

/-! ## Objects of one member -/

theorem selection_member (container : Text) (key : Key) (v : Value) :
    selection container (.map [(key, v)]) = .ok (key, v) := rfl

section Enumeration

variable {s : Schema} {next : Visit} {name t : Text} {variants : List Variant} {link child : Link}
  {table : NameTable} {variant : Variant} (htable : s.table? link = some table)
  (hvariant : variantOf? table variants (.text t) = some variant)

include htable hvariant

theorem enumeration_of_member (v : Value) :
    enumeration s next name variants link (.map [(.text t, v)]) = (do
      written (Write.byte variant.discriminant)
      payload s next name variant v) := by
  simp only [enumeration, selection_member, Output.ofExcept_ok_bind, htable, hvariant]

variable (hpayload : variant.payload = some child)

include hpayload

/-- The payload is any value that the payload type accepts, but for nothing. -/
theorem enumeration_yields_iff {v : Value} {own : List UInt8} :
    (enumeration s next name variants link (.map [(.text t, v)])).Yields own () ↔
      v ≠ .null ∧ ∃ type part, s.resolve child = .ok type ∧ (next type child v).Yields part () ∧
        own = variant.discriminant :: part := by
  rw [enumeration_of_member htable hvariant, Output.yields_bind_iff]
  simp only [payload, hpayload]
  constructor
  · rintro ⟨front, _, part, hfront, hpart, rfl⟩
    obtain rfl := written_emit_yields_iff.mp hfront
    by_cases hv : v.isNull = true
    · rw [if_pos hv] at hpart
      exact absurd hpart Output.not_yields_fail
    · rw [if_neg hv] at hpart
      obtain ⟨type, hr, hpart⟩ := follow_yields_iff.mp hpart
      exact ⟨fun h => hv (Value.isNull_iff.mpr h), type, part, hr, hpart, rfl⟩
  · rintro ⟨hv, type, part, hr, hpart, rfl⟩
    refine ⟨[variant.discriminant], (), part, written_emit_yields_iff.mpr rfl, ?_, rfl⟩
    rw [if_neg fun h => hv (Value.isNull_iff.mp h)]
    exact follow_yields_iff.mpr ⟨type, hr, hpart⟩

theorem enumeration_null :
    enumeration s next name variants link (.map [(.text t, .null)]) =
      ⟨[variant.discriminant], .error (.missingPayload name variant.name)⟩ := by
  rw [enumeration_of_member htable hvariant]
  simp only [payload, hpayload]
  rfl

end Enumeration

/-! ## Types that take nothing -/

/-- The types at which nothing is a value: options, positions without bytes, and tuples of one field
around such a type. -/
inductive TakesNull (s : Schema) : Ty → Prop where
  | skip {length : Nat} : TakesNull s (.primitive (.skip length))
  | option {item : Link} : TakesNull s (.option item)
  | single {field : UnnamedField} {template : Option Text} {peekable : Bool} {type : Ty}
    (hr : s.resolve field.type = .ok type) (h : TakesNull s type) :
    TakesNull s (.tuple [field] template peekable)

/-- Such a type accepts nothing, given levels enough. -/
theorem TakesNull.exists_yields {e : Encoder} {type : Ty} (h : TakesNull e.schema type)
    (link : Link) : ∃ levels own, (visit e levels type link .null).Yields own () := by
  induction h generalizing link with
  | skip => exact ⟨1, [], rfl⟩
  | option => exact ⟨1, [0], rfl⟩
  | @single field _ _ type hr _ ih =>
    obtain ⟨levels, own, hown⟩ := ih field.type
    refine ⟨levels + 1, own, ?_⟩
    show (follow e.schema (visit e levels) field.type .null).Yields own ()
    rwa [follow_of_resolve hr]

theorem takesNull_of_yields {e : Encoder} {levels : Nat} {type : Ty} {link : Link}
    {own : List UInt8} (h : (visit e levels type link .null).Yields own ()) :
    TakesNull e.schema type := by
  induction levels generalizing type link with
  | zero => exact absurd h Output.not_yields_fail
  | succ levels ih =>
    cases type with
    | primitive type =>
      cases type with
      | skip length => exact .skip
      | _ => cases h
    | option item => exact .option
    | tuple fields template peekable =>
      match fields with
      | [field] =>
        obtain ⟨type, hr, hy⟩ := follow_yields_iff.mp h
        exact .single hr (ih hy)
      | [] | _ :: _ :: _ => cases h
    | _ => cases h

end Encode

namespace Encoder

open Encode (visit visitAt variantOf? TakesNull)

/-- What an entry of the type table encodes to under what the limits leave at a depth is what a visit
there puts out. -/
theorem encode_eq_ok_iff_visitAt {s : Schema} {c c' : Config} {depth : Nat} (h : c.Leaves depth c')
    {j : Nat} {v : Value} {own : List UInt8} :
    encode ⟨s, c'⟩ (.int j) v = .ok own ↔
      ∃ type, s.resolve (.byIndex j) = .ok type ∧
        (visitAt ⟨s, c⟩ depth type (.byIndex j) v).Yields own () := by
  have hvisit : ∀ type, s.types[j]? = some type → (encode ⟨s, c'⟩ (.int j) v = .ok own ↔
      (visitAt ⟨s, c⟩ depth type (.byIndex j) v).Yields own ()) := by
    intro type htype
    rw [encode_byIndex (e := ⟨s, c'⟩) htype, ← Output.result_eq_ok_iff_yields]
    exact (Encode.visitAt_alike h type (.byIndex j) v).result.eq_ok_iff.symm
  constructor
  · intro hown
    cases htype : s.types[j]? with
    | none =>
      rw [encode, encodeWithin_int, htype] at hown
      cases hown
    | some type => exact ⟨type, Schema.resolve_byIndex_iff.mpr htype, (hvisit type htype).mp hown⟩
  · rintro ⟨type, hr, hown⟩
    exact (hvisit type (Schema.resolve_byIndex_iff.mp hr)).mpr hown

/-- Payloads compose. The object of one member that names a variant with a payload is accepted exactly
if its value is not nothing and is accepted one level deeper as the payload, and it is written as the
discriminant and the bytes of the payload; so an enum is encoded like its payload encoded alone under
a limit that is less by one, after the discriminant. Nothing is refused as a payload that is missing,
also at the types that take it, and these are options, positions without bytes and tuples of one field
around them. -/
theorem payload_composes (s : Schema) (c : Config) {i : Nat} {name t : Text}
    {variants : List Variant} {hideTag : Bool} {table : NameTable} {variant : Variant} {child : Link}
    (htype : s.types[i]? = some (.enumeration name variants hideTag))
    (htable : s.table? (.byIndex i) = some table)
    (hvariant : variantOf? table variants (.text t) = some variant)
    (hpayload : variant.payload = some child) :
    (∀ levels v own,
      (visit ⟨s, c⟩ (levels + 1) (.enumeration name variants hideTag) (.byIndex i)
          (.map [(.text t, v)])).Yields own () ↔
        v ≠ .null ∧ ∃ type part, s.resolve child = .ok type ∧
          (visit ⟨s, c⟩ levels type child v).Yields part () ∧
          own = variant.discriminant :: part) ∧
    (∀ levels,
      (visit ⟨s, c⟩ (levels + 1) (.enumeration name variants hideTag) (.byIndex i)
        (.map [(.text t, .null)])).outcome = .error (.missingPayload name variant.name)) ∧
    (∀ type, s.resolve child = .ok type →
      ((∃ levels part, (visit ⟨s, c⟩ levels type child .null).Yields part ()) ↔
        TakesNull s type)) ∧
    ∀ j c', child = .byIndex j → c.Leaves 1 c' → ∀ v own,
      encode ⟨s, c⟩ (.int i) (.map [(.text t, v)]) = .ok own ↔
        v ≠ .null ∧ ∃ part, encode ⟨s, c'⟩ (.int j) v = .ok part ∧
          own = variant.discriminant :: part := by
  refine ⟨fun levels v own => Encode.enumeration_yields_iff htable hvariant hpayload,
    fun levels => ?_, fun type _ => ?_, fun j c' hchild h v own => ?_⟩
  · exact congrArg Output.outcome (Encode.enumeration_null htable hvariant hpayload)
  · constructor
    · rintro ⟨levels, part, hy⟩
      exact Encode.takesNull_of_yields hy
    · intro htakes
      exact htakes.exists_yields (e := ⟨s, c⟩) child
  · subst hchild
    rw [encode_byIndex (e := ⟨s, c⟩) htype, Output.result_eq_ok_iff_yields]
    refine (Encode.enumeration_yields_iff htable hvariant hpayload).trans
      (and_congr_right fun _ => ?_)
    simp only [encode_eq_ok_iff_visitAt h]
    constructor
    · rintro ⟨type, part, hr, hy, rfl⟩
      exact ⟨part, ⟨type, hr, hy⟩, rfl⟩
    · rintro ⟨part, ⟨type, hr, hy⟩, rfl⟩
      exact ⟨type, part, hr, hy, rfl⟩

end Encoder

/-- Preferences of one kind: a theme that may be left open, with the discriminant 3. -/
def Schema.preferences : Schema :=
  build [.enumeration "Preference" [⟨"Theme", 3, none, some (.byIndex 1)⟩] false,
      .option (.immediate .boolean)]
    [0] [⟨"Preference", ["theme"]⟩, ⟨"", []⟩] none [] []

/-- What the default limits leave in a variant. -/
def Config.inVariant : Config := { default with maxDepth := 255, maxDepth_pos := Nat.succ_pos 254 }

namespace Encoder

open Encode (visitAt)

/-- A theme that is set is written after the discriminant as it is written alone. -/
theorem preferences_compose :
    Schema.preferences.types[0]? = some
        (.enumeration "Preference" [⟨"Theme", 3, none, some (.byIndex 1)⟩] false) ∧
      Config.default.Leaves 1 .inVariant ∧
      encode ⟨.preferences, .inVariant⟩ (.int 1) (.bool true) = .ok [1, 1] ∧
      encode ⟨.preferences, .default⟩ (.int 0) (.map [(.text "theme", .bool true)]) =
        .ok [3, 1, 1] := by
  have hleaves : Config.default.Leaves 1 .inVariant := ⟨rfl, rfl⟩
  have hpayload : encode ⟨.preferences, .inVariant⟩ (.int 1) (.bool true) = .ok [1, 1] := rfl
  obtain ⟨_, _, _, hencode⟩ := payload_composes .preferences .default (i := 0) (t := "theme") rfl rfl
    rfl rfl
  exact ⟨rfl, hleaves, hpayload,
    (hencode 1 .inVariant rfl hleaves (.bool true) [3, 1, 1]).mpr ⟨nofun, [1, 1], hpayload, rfl⟩⟩

/-- A theme that is left open is an option without a value, but no preference can have it. -/
theorem preferences_refuse_nothing :
    Schema.preferences.resolve (.byIndex 1) = .ok (.option (.immediate .boolean)) ∧
      (visitAt ⟨.preferences, .default⟩ 1 (.option (.immediate .boolean)) (.byIndex 1)
        .null).Yields [0] () ∧
      encode ⟨.preferences, .default⟩ (.int 0) (.map [(.text "theme", .null)]) ≠ .ok [3, 0] ∧
      encode ⟨.preferences, .default⟩ (.int 0) (.map [(.text "theme", .null)]) =
        .error (.missingPayload "Preference" "Theme") :=
  ⟨rfl, rfl, nofun, rfl⟩

end Encoder

end BorshWire
