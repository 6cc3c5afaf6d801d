import BorshWire.Proofs.Refusal.Walk
import BorshWire.Proofs.Schema.WellFormed

/-!
# Well-formed schemas are never to blame

`encode_of_wellFormed`: against a schema that is well-formed as seen from the root, no value, of
whatever shape, is refused because of the schema. If moreover no chain of links below the root is
longer than the depth limit, no value is refused as too deep. Both follow from properties of
positions that the walk hands down: that the schema is well-formed from here on, and that more levels
are left than any chain of links has.
-/

namespace BorshWire

/-! ## The kinds of refusals -/

namespace ErrorKind

/-- The kinds of refusals that are due to the schema alone. -/
def ofSchema : List ErrorKind := [unresolvedType, missingMetadata, invalidIndex]

/-- A value can be refused with this kind whatever the schema. -/
def ofValue : ErrorKind → Bool
  | unresolvedType | missingMetadata | invalidIndex | recursionLimit | invalidSchema => false
  | _ => true

theorem ofValue_eq_false : ∀ kind ∈ ofSchema, kind.ofValue = false := by decide

end ErrorKind

theorem Ty.exists_leastNames {type : Ty} (h : type.isNamed = true) :
    ∃ least, type.leastNames? = some least := by
  cases type with
  | enumeration name variants hideTag => exact ⟨0, rfl⟩
  | struct name fields template peekable => exact ⟨fields.length, rfl⟩
  | _ => cases h

theorem ByteTextError.eq_byteDisplay_of_kind? {err : ByteTextError} {kind : ErrorKind}
    (h : err.kind? = some kind) : kind = .byteDisplay := by
  cases err <;> cases h <;> rfl

namespace Encode

/-- What a level refuses by itself is due to the value, or to a row of names that is missing. -/
theorem Refuses.kind {e : Encoder} {link : Link} {type : Ty} {v : Value} {err : EncodeError}
    (h : Refuses e link type v err) {kind : ErrorKind} (hk : err.kind? = some kind) :
    kind.ofValue = true ∨ kind = .missingMetadata := by
  cases h with
  | noNames => exact .inr (Option.some.inj hk).symm
  | tooFewNames => exact .inr (Option.some.inj hk).symm
  | byteText =>
    obtain rfl := ByteTextError.eq_byteDisplay_of_kind? hk
    exact .inl rfl
  | misread h =>
    cases h with
    | unexpected =>
      obtain rfl := Option.some.inj hk
      exact .inl rfl
    | _ => cases hk
  | _ => cases hk <;> exact .inl rfl

/-- No row of names is missing at a furnished link. -/
theorem Refuses.ne_missingMetadata {e : Encoder} {link : Link} {type : Ty} {v : Value}
    {err : EncodeError} (h : Refuses e link type v err) (hr : e.schema.resolve link = .ok type)
    (hf : e.schema.Furnished link) : err.kind? ≠ some .missingMetadata := by
  cases h with
  | noNames name hn hnone =>
    obtain ⟨least, hleast⟩ := Ty.exists_leastNames hn
    obtain ⟨table, htable, _⟩ := hf.named hr hleast
    rw [hnone] at htable
    cases htable
  | tooFewNames htable hlt =>
    obtain ⟨table, htable', hle⟩ := hf.named hr rfl
    obtain rfl := Option.some.inj (htable.symm.trans htable')
    exact absurd hle (Nat.not_le.mpr hlt)
  | byteText =>
    intro hk
    cases ByteTextError.eq_byteDisplay_of_kind? hk
  | misread h => cases h with | _ => nofun
  | _ => nofun

/-! ## Properties that are handed down -/

/-- A schema that is well-formed from a position on is so from the next ones on. -/
theorem wellFormed_invariant (e : Encoder) :
    Invariant e (fun _ type link _ => e.schema.WellFormed link ∧ e.schema.resolve link = .ok type)
      (fun err => ∀ kind ∈ ErrorKind.ofSchema, err.kind? ≠ some kind) where
  tooDeep := by
    rintro type link v _ kind hmem hk
    obtain rfl := Option.some.inj hk
    exact absurd hmem (by decide)
  own := by
    rintro levels type link v err ⟨hwf, hr⟩ h kind hmem hk
    rcases h.kind hk with hvalue | rfl
    · exact absurd hvalue (Bool.eq_false_iff.mp (ErrorKind.ofValue_eq_false kind hmem))
    · exact h.ne_missingMetadata hr hwf.furnished hk
  unresolved := by
    rintro levels type link child v reason ⟨hwf, hr⟩ hc herr
    obtain ⟨childType, hchild⟩ := (hwf.child hr hc).furnished.resolves
    rw [hchild] at herr
    cases herr
  below hI hc hr _ := ⟨hI.1.child hI.2 hc, hr⟩

/-- If more levels are left than any chain of links has, so there are at the next positions. -/
theorem chains_invariant (e : Encoder) :
    Invariant e
      (fun levels type link _ => e.schema.resolve link = .ok type ∧
        ∀ length last, e.schema.Chain link length last → length < levels)
      (fun err => err.kind? ≠ some .recursionLimit) where
  tooDeep hI := absurd (hI.2 0 _ (.here _)) (Nat.not_lt_zero 0)
  own := by
    rintro levels type link v err _ h hk
    rcases h.kind hk with hvalue | hmissing
    · cases hvalue
    · cases hmissing
  unresolved _ _ _ := nofun
  below := by
    rintro levels type childType link child v w ⟨hr, hchains⟩ hc hchild _
    refine ⟨hchild, fun length last h => ?_⟩
    exact Nat.lt_of_succ_lt_succ (hchains _ _ (.down hr hc h))

end Encode

/-! ## Encoding against a well-formed schema -/

namespace Encoder

open Encode (RefusedWith)

variable {e : Encoder} {index : Nat}

theorem encodeWithin_of_wellFormed (h : e.schema.WellFormed (.byIndex index)) (levels : Nat)
    (v : Value) {kind : ErrorKind} (hk : kind ∈ ErrorKind.ofSchema) :
    ¬RefusedWith (e.encodeWithin levels (.int index) v) kind := by
  rintro ⟨err, herr, hkind⟩
  obtain ⟨type, hr⟩ := h.furnished.resolves
  exact encodeWithin_fails (Encode.wellFormed_invariant e) hr ⟨h, hr⟩ herr kind hk hkind

theorem encodeWithin_of_chainsWithin {type : Ty}
    (hr : e.schema.resolve (.byIndex index) = .ok type) {bound levels : Nat}
    (h : e.schema.ChainsWithin (.byIndex index) bound) (hlt : bound < levels) (v : Value) :
    ¬RefusedWith (e.encodeWithin levels (.int index) v) .recursionLimit := by
  rintro ⟨err, herr, hkind⟩
  have hchains : ∀ length last, e.schema.Chain (.byIndex index) length last → length < levels :=
    fun length last hchain => Nat.lt_of_le_of_lt (h length last hchain) hlt
  exact encodeWithin_fails (Encode.chains_invariant e) hr ⟨hr, hchains⟩ herr hkind

/-- Against a schema whose reachable links all lead to types, whose reachable enums have a row of
names and whose reachable structs have one of at least as many names as fields, no value is refused
because of the schema. Nor is any refused as too deep, if the chains of links below the root are no
longer than the limit. -/
theorem encode_of_wellFormed (h : e.schema.WellFormed (.byIndex index)) (v : Value) :
    (∀ kind ∈ [ErrorKind.unresolvedType, .missingMetadata, .invalidIndex],
      ¬RefusedWith (e.encode (.int index) v) kind ∧
        ∀ stack, ¬RefusedWith (e.run stack (.int index) v) kind) ∧
    (e.schema.ChainsWithin (.byIndex index) e.config.maxDepth →
      ¬RefusedWith (e.encode (.int index) v) .recursionLimit ∧
        ∀ stack : Stack, e.config.maxDepth < stack.levels →
          ¬RefusedWith (e.run stack (.int index) v) .recursionLimit) := by
  constructor
  · intro kind hk
    exact ⟨encodeWithin_of_wellFormed h _ v hk, fun stack => encodeWithin_of_wellFormed h _ v hk⟩
  · intro hchains
    obtain ⟨type, hr⟩ := h.furnished.resolves
    refine ⟨encodeWithin_of_chainsWithin hr hchains (Nat.lt_succ_self _) v, fun stack hroom => ?_⟩
    have hlevels : e.config.maxDepth < min (e.config.maxDepth + 1) stack.levels :=
      Nat.lt_min.mpr ⟨Nat.lt_succ_self _, hroom⟩
    exact encodeWithin_of_chainsWithin hr hchains hlevels v

end Encoder

namespace Schema

/-- Orders of lists of sides, of which one may have a price. -/
def orders : Schema :=
  build
    [.struct "Order" [⟨"Sides", .byIndex 1, false, []⟩, ⟨"Note", .immediate .string, false, []⟩]
        none false,
      .vec (.byIndex 2),
      .enumeration "Side" [⟨"Buy", 0, none, none⟩, ⟨"Sell", 1, none, some (.byIndex 3)⟩] false,
      .option (.immediate (.integer ⟨false, .w64⟩ ⟨.decimal, none, none, none⟩))]
    [0] [⟨"Order", ["sides", "note", "spare"]⟩, ⟨"", []⟩, ⟨"Side", ["buy"]⟩] none [] []

/-- How far down the links of orders lead. -/
def ordersRank : Link → Nat
  | .byIndex index => 4 - index
  | _ => 0

/-- Every link below the root of orders. -/
def ordersLinks : List Link :=
  [.byIndex 0, .byIndex 1, .byIndex 2, .byIndex 3, .immediate .string,
    .immediate (.integer ⟨false, .w64⟩ ⟨.decimal, none, none, none⟩)]

theorem orders_furnished : ∀ link ∈ ordersLinks, orders.Furnished link := by
  intro link h
  simp only [ordersLinks, List.mem_cons, List.not_mem_nil, or_false] at h
  rcases h with rfl | rfl | rfl | rfl | rfl | rfl
  all_goals
    refine ⟨⟨_, rfl⟩, fun hr hleast => ?_⟩
    obtain rfl := Except.ok.inj hr
  -- the order and the side have rows, the rest need none
  · obtain rfl := Option.some.inj hleast
    exact ⟨_, rfl, by decide⟩
  · cases hleast
  · obtain rfl := Option.some.inj hleast
    exact ⟨_, rfl, by decide⟩
  all_goals cases hleast

theorem orders_descends {link child : Link} {type : Ty} (h : link ∈ ordersLinks)
    (hr : orders.resolve link = .ok type) (hc : child ∈ type.links) :
    child ∈ ordersLinks ∧ ordersRank child < ordersRank link := by
  simp only [ordersLinks, List.mem_cons, List.not_mem_nil, or_false] at h
  rcases h with rfl | rfl | rfl | rfl | rfl | rfl
  all_goals
    obtain rfl := Except.ok.inj hr
    revert child
    decide

theorem orders_wellFormed : orders.WellFormed (.byIndex 0) :=
  .of_closed ordersLinks orders_furnished (fun _ h _ hr _ hc => (orders_descends h hr hc).1)
    List.mem_cons_self

theorem orders_chainsWithin : orders.ChainsWithin (.byIndex 0) 4 :=
  .of_rank ordersLinks ordersRank (fun _ h _ hr _ hc => orders_descends h hr hc) List.mem_cons_self

end Schema

open Encode (RefusedWith) in
/-- A side without a name is refused as unknown, and not for the row that misses it. -/
theorem Encoder.orders_refuse_unnamedSide :
    let e : Encoder := ⟨.orders, ⟨4, 90, by decide, by decide⟩⟩
    let v : Value := .map [(.text "sides", .list [.text "buy", .text "sell"]), (.text "note", .null)]
    RefusedWith (e.encode (.int 0) v) .invalidDiscriminant ∧
      ¬RefusedWith (e.encode (.int 0) v) .missingMetadata ∧
      ¬RefusedWith (e.encode (.int 0) v) .recursionLimit := by
  intro e v
  have h := encode_of_wellFormed (e := e) Schema.orders_wellFormed v
  refine ⟨⟨_, rfl, rfl⟩, ?_, ?_⟩
  · exact (h.1 .missingMetadata (by decide)).1
  · exact (h.2 Schema.orders_chainsWithin).1

end BorshWire
