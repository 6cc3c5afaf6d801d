import BorshWire.Json.Parser
import BorshWire.Proofs.Text.Decimal
import BorshWire.Wire.Output

/-!
# What documents stand for

`Document.ofDocument_of_parse`: a document stands for a value that is made of scalars, texts, lists
and maps under text keys (`Value.OfDocument`), with integers of no more digits than are converted.
Tuples, buffers, ranges, maps under other keys and collections that only claim a length come from
memory, never from a document.
-/

namespace BorshWire

namespace Value

/-- The values that documents stand for. -/
inductive OfDocument : Value → Prop where
  | null : OfDocument .null
  | bool (b : Bool) : OfDocument (.bool b)
  | int {n : Int} (h : Text.spells n = true) : OfDocument (.int n)
  | float (x : Double) : OfDocument (.float x)
  | text (t : Text) : OfDocument (.text t)
  | list {items : List Value} (h : ∀ v ∈ items, OfDocument v) : OfDocument (.list items)
  | map {entries : List (Key × Value)} (hkey : ∀ e ∈ entries, ∃ t, e.1 = .text t)
    (hvalue : ∀ e ∈ entries, OfDocument e.2) : OfDocument (.map entries)

/-- An entry under a text key whose value comes from a document. -/
def IsMember (e : Key × Value) : Prop := (∃ t, e.1 = .text t) ∧ e.2.OfDocument

theorem OfDocument.of_members {entries : List (Key × Value)} (h : ∀ e ∈ entries, IsMember e) :
    OfDocument (.map entries) :=
  .map (fun e he => (h e he).1) fun e he => (h e he).2

theorem isMember_insertEntry (name : Text) {v : Value} {entries : List (Key × Value)}
    (hv : v.OfDocument) (h : ∀ e ∈ entries, IsMember e) :
    ∀ e ∈ insertEntry (.text name) v entries, IsMember e := by
  induction entries with
  | nil => exact List.forall_mem_singleton.mpr ⟨⟨name, rfl⟩, hv⟩
  | cons first rest ih =>
    obtain ⟨k, w⟩ := first
    obtain ⟨⟨hkey, hvalue⟩, hrest⟩ := List.forall_mem_cons.mp h
    unfold insertEntry
    split
    · exact List.forall_mem_cons.mpr ⟨⟨hkey, hv⟩, hrest⟩
    · exact List.forall_mem_cons.mpr ⟨⟨hkey, hvalue⟩, ih hrest⟩

end Value

namespace Json

/-- Whatever is read has a property. -/
def Yields {α : Type} (P : α → Prop) (r : Read α) : Prop := ∀ a c, r = .ok (a, c) → P a

namespace Yields

variable {α β : Type} {P : α → Prop} {Q : β → Prop}

theorem error (stop : Stop) : Yields P (.error stop) := nofun

theorem ok {a : α} (h : P a) (c : Cursor) : Yields P (.ok (a, c)) := by
  rintro _ _ ⟨⟩
  exact h

theorem map {r : Read α} {f : α → β} (h : Yields P r) (hf : ∀ a, P a → Q (f a)) :
    Yields Q (r.map fun x => (f x.1, x.2)) := by
  cases r with
  | error stop => exact error stop
  | ok x => exact ok (hf x.1 (h _ _ rfl)) x.2

end Yields

/-- A reader of values of documents. -/
def ReadsValues (value : Cursor → Read Value) : Prop := ∀ c, Yields Value.OfDocument (value c)

theorem isDigit_of_mem_takeWhole {t : Text} {c : CodePoint} (h : c ∈ (takeWhole t).1) :
    c.isDigit = true := by
  unfold takeWhole at h
  split at h
  · obtain rfl := List.mem_singleton.mp h
    rfl
  · exact (Numeral.takeDigits_spec _).2.1 c h

theorem readsValues_number : ReadsValues number := by
  intro c
  unfold number
  dsimp only
  -- with a sign and without one
  split
  all_goals
    split
    · exact .error _
    · split
      · exact .ok (.float _) _
      · split
        · exact .error _
        · rename_i hlength
          exact .ok (.int (Numeral.spells_toInt (fun _ => isDigit_of_mem_takeWhole)
            (Nat.not_lt.mp hlength))) _

theorem readsValues_scalar (allowConstants : Bool) : ReadsValues (scalar allowConstants) := by
  intro c
  unfold scalar
  split
  · rename_i word v hfind
    have hword : ∀ w ∈ words, Value.OfDocument w.2 := by
      simp only [words, List.forall_mem_cons]
      exact ⟨.null, .bool true, .bool false, nofun⟩
    exact .ok (hword _ (List.mem_of_find?_eq_some hfind)) _
  · split
    · split
      · exact .ok (.float _) _
      · exact .error _
    · exact readsValues_number c

section Nested

variable {value : Cursor → Read Value}

theorem items_yields (hvalue : ReadsValues value) {fuel : Nat} {before : List Value}
    (hbefore : ∀ v ∈ before, v.OfDocument) (c : Cursor) :
    Yields (fun vs => ∀ v ∈ vs, v.OfDocument) (items value fuel before c) := by
  induction fuel generalizing before c with
  | zero => exact .error _
  | succ fuel ih =>
    unfold items
    split
    · exact .error _
    · rename_i v next hv
      have hall : ∀ w ∈ v :: before, w.OfDocument :=
        List.forall_mem_cons.mpr ⟨hvalue c v next hv, hbefore⟩
      dsimp only
      split
      · exact .ok (fun w hw => hall w (List.mem_reverse.mp hw)) _
      · exact ih hall _
      · exact .error _

/-- The members put in so far and those still to come are members of objects. -/
theorem members_yields (hvalue : ReadsValues value) {fuel : Nat} {before : List (Key × Value)}
    (hbefore : ∀ e ∈ before, Value.IsMember e) (c : Cursor) :
    Yields (fun entries => ∀ e ∈ entries, Value.IsMember e) (members value fuel before c) := by
  induction fuel generalizing before c with
  | zero => exact .error _
  | succ fuel ih =>
    unfold members
    split
    · split
      · exact .error _
      · dsimp only
        split
        · split
          · exact .error _
          · rename_i v next hv
            have hall : ∀ name, ∀ e ∈ Value.insertEntry (.text name) v before, Value.IsMember e :=
              fun name => Value.isMember_insertEntry name (hvalue _ v next hv) hbefore
            split
            · exact .ok (hall _) _
            · exact ih (hall _) _
            · exact .error _
        · exact .error _
    · exact .error _

theorem readsValues_array (hvalue : ReadsValues value) : ReadsValues (array value) := by
  intro c
  unfold array
  dsimp only
  split
  · exact .ok (.list (List.forall_mem_nil _)) _
  · exact (items_yields hvalue (List.forall_mem_nil _) _).map fun _ h => .list h

theorem readsValues_object (hvalue : ReadsValues value) : ReadsValues (object value) := by
  intro c
  unfold object
  dsimp only
  split
  · exact .ok (.of_members (List.forall_mem_nil _)) _
  · exact (members_yields hvalue (List.forall_mem_nil _) _).map fun _ h => .of_members h

theorem readsValues_valueWith (allowConstants : Bool) {nested : Option (Cursor → Read Value)}
    (hnested : ∀ value, nested = some value → ReadsValues value) :
    ReadsValues (valueWith allowConstants nested) := by
  intro c
  have hstring : Yields (fun _ => True) (string (c.advance 1)) := fun _ _ _ => trivial
  unfold valueWith
  split
  · exact .error _
  · exact hstring.map fun t _ => .text t
  · exact readsValues_array (hnested _ rfl) _
  · exact readsValues_object (hnested _ rfl) _
  · exact .error _
  · exact .error _
  · exact readsValues_scalar allowConstants c

end Nested

theorem readsValues_value (allowConstants : Bool) (depth : Nat) :
    ReadsValues (value allowConstants depth) := by
  induction depth with
  | zero => exact readsValues_valueWith allowConstants nofun
  | succ depth ih =>
    refine readsValues_valueWith allowConstants fun value h => ?_
    obtain rfl := Option.some.inj h
    exact ih

theorem ofDocument_of_readAll {allowConstants : Bool} {depth : Nat} {doc : Text} {v : Value}
    (h : readAll allowConstants depth doc = .ok v) : v.OfDocument := by
  unfold readAll at h
  cases hvalue : value allowConstants depth (Cursor.skipSpace ⟨0, doc⟩) with
  | error stop =>
    rw [hvalue] at h
    cases h
  | ok r =>
    rw [hvalue] at h
    change (if _ then _ else _) = _ at h
    split at h
    · obtain rfl := Except.ok.inj h
      exact readsValues_value allowConstants depth _ _ _ hvalue
    · cases h

end Json

/-- A document stands for a value of scalars, texts, lists and maps under text keys. -/
theorem Document.ofDocument_of_parse {allowConstants : Bool} {doc : Document} {v : Value}
    (h : doc.parse allowConstants = .ok v) : v.OfDocument := by
  cases doc with
  | text t =>
    rw [Document.parse, Json.parseWithin] at h
    split at h
    · cases h
    · exact Json.ofDocument_of_readAll (Output.mapError_eq_ok_iff.mp h)
  | bytes data =>
    rw [Document.parse] at h
    split at h
    · cases h
    · exact Json.ofDocument_of_readAll (Output.mapError_eq_ok_iff.mp h)

/-! ## Texts in quotes -/

namespace Json

/-- Characters that stand for themselves between quotes are read up to the closing quote. -/
theorem readString_append {t : Text} (h : ∀ c ∈ t, c ≠ 0x22 ∧ c ≠ 0x5C ∧ 0x20 ≤ c.val)
    (opening offset : Nat) (before rest : Text) :
    readString opening offset 0 before (t ++ 0x22 :: rest) =
      .ok (before.reverse ++ t, ⟨offset + t.length + 1, rest⟩) := by
  induction t generalizing offset before with
  | nil => simp [readString]
  | cons c t ih =>
    obtain ⟨⟨hquote, hbackslash, hcontrol⟩, ht⟩ := List.forall_mem_cons.mp h
    rw [List.cons_append, readString, if_neg hquote, if_neg hbackslash,
      if_neg (Nat.not_lt.mpr hcontrol), ih ht]
    simp only [List.reverse_cons, List.append_assoc, List.singleton_append, List.length_cons]
    congr 4
    omega

end Json

/-- A text in quotes is read as this text, if its characters stand for themselves. -/
theorem Document.parse_quoted {t : Text} (h : ∀ c ∈ t, c ≠ 0x22 ∧ c ≠ 0x5C ∧ 0x20 ≤ c.val)
    (allowConstants : Bool) :
    (Document.text (0x22 :: (t ++ [0x22]))).parse allowConstants = .ok (.text t) := by
  have hstring := Json.readString_append h 0 1 [] []
  have hvalue : Json.value allowConstants Json.maxNesting ⟨0, 0x22 :: (t ++ [0x22])⟩ =
      .ok (.text t, ⟨1 + t.length + 1, []⟩) := by
    show (Json.readString 0 1 0 [] (t ++ [0x22])).map _ = _
    rw [hstring]
    rfl
  have hskip : Json.Cursor.skipSpace ⟨0, 0x22 :: (t ++ [0x22])⟩ = ⟨0, 0x22 :: (t ++ [0x22])⟩ := rfl
  have hread : Json.readAll allowConstants Json.maxNesting (0x22 :: (t ++ [0x22])) =
      .ok (.text t) := by
    rw [Json.readAll, hskip, hvalue]
    rfl
  rw [Document.parse, Json.parseWithin, if_neg (by simp), hread]
  rfl

end BorshWire
