import BorshWire.Proofs.Entries
import BorshWire.Proofs.Positions
import BorshWire.Proofs.Schema.Names

/-!
# The fields of a struct

`Encoder.struct_exact`: a struct is written exactly if the members of its value are the fields, each
under a name of its own and each accepted, and then as the parts of the fields in their order.
Otherwise the first field in the order of the schema that has no member left or whose member is
refused decides how the struct fails; members are in excess only if every field is written.

The loop over the fields uses names up one by one. What it has left at a field is what it was given
without the names of the fields before (`unspent`), which turns the loop into statements about the
members that it was given.
-/

namespace BorshWire

namespace Output

variable {ε α β : Type}

/-- Two steps fail where the first one fails, or where it ends well and the second one fails. -/
theorem outcome_bind_error_iff {x : Output ε α} {f : α → Output ε β} {err : ε} :
    (x >>= f).outcome = .error err ↔
      x.outcome = .error err ∨ ∃ bytes a, x.Yields bytes a ∧ (f a).outcome = .error err := by
  obtain ⟨bytes, outcome⟩ := x
  cases outcome with
  | error e =>
    constructor
    · intro h
      exact .inl (congrArg Except.error (Except.error.inj h))
    · rintro (h | ⟨_, _, h, _⟩)
      · exact congrArg Except.error (Except.error.inj h)
      · nomatch h
  | ok a =>
    constructor
    · intro h
      exact .inr ⟨bytes, a, rfl, h⟩
    · rintro (h | ⟨_, b, h, hf⟩)
      · nomatch h
      · obtain rfl := Except.ok.inj (Output.mk.inj h).2
        exact hf

end Output

namespace Encode

section Fields

variable {s : Schema} {next : Visit} {container : Text}

/-- A field is written as these bytes, from the member under its name. -/
def FieldWritten (s : Schema) (next : Visit) (members : List (Text × Value))
    (field : NamedField × Text) (part : List UInt8) : Prop :=
  ∃ v, (field.2, v) ∈ members ∧ (follow s next field.1.type v).Yields part ()

/-- Fields under distinct names are written, each as its part. -/
structure AllWritten (s : Schema) (next : Visit) (members : List (Text × Value))
    (fields : List (NamedField × Text)) (parts : List (List UInt8)) : Prop where
  distinct : (fields.map Prod.snd).Nodup
  written : List.Forall₂ (FieldWritten s next members) fields parts

/-- A field stops the struct: there is no member under its name, or its member is refused. -/
inductive Stopped (s : Schema) (next : Visit) (container : Text) (members : List (Text × Value))
    (field : NamedField × Text) : EncodeError → Prop where
  | absent (h : ∀ v, (field.2, v) ∉ members) :
    Stopped s next container members field (.missingField container field.1.displayName)
  | refused {v : Value} {err : EncodeError} (h : (field.2, v) ∈ members)
    (hv : (follow s next field.1.type v).outcome = .error err) :
    Stopped s next container members field err

/-- The fields before some field are written, and this one stops the struct: among the members that
the fields before have left. -/
def FirstStopped (s : Schema) (next : Visit) (container : Text) (members : List (Text × Value))
    (fields : List (NamedField × Text)) (err : EncodeError) : Prop :=
  ∃ before field after parts, fields = before ++ field :: after ∧
    AllWritten s next members before parts ∧
    Stopped s next container (unspent (before.map Prod.snd) members) field err

theorem fieldWritten_unspent_iff {names : List Text} {members : List (Text × Value)}
    {field : NamedField × Text} {part : List UInt8} :
    FieldWritten s next (unspent names members) field part ↔
      field.2 ∉ names ∧ FieldWritten s next members field part := by
  simp only [FieldWritten, mem_unspent_iff, ← exists_and_left]
  exact exists_congr fun v => by tauto

theorem forall₂_fieldWritten_unspent_iff {names : List Text} {members : List (Text × Value)}
    {fields : List (NamedField × Text)} {parts : List (List UInt8)} :
    List.Forall₂ (FieldWritten s next (unspent names members)) fields parts ↔
      (∀ field ∈ fields, field.2 ∉ names) ∧
        List.Forall₂ (FieldWritten s next members) fields parts := by
  rw [← List.forall₂_and_left]
  have heq : FieldWritten s next (unspent names members) =
      fun field part => field.2 ∉ names ∧ FieldWritten s next members field part :=
    funext fun _ => funext fun _ => propext fieldWritten_unspent_iff
  rw [heq]

@[simp] theorem allWritten_nil_iff {members : List (Text × Value)} {parts : List (List UInt8)} :
    AllWritten s next members [] parts ↔ parts = [] :=
  ⟨fun h => List.forall₂_nil_left_iff.mp h.written, fun h => ⟨.nil, h ▸ .nil⟩⟩

theorem allWritten_cons_iff {members : List (Text × Value)} {field : NamedField × Text}
    {fields : List (NamedField × Text)} {parts : List (List UInt8)} :
    AllWritten s next members (field :: fields) parts ↔
      ∃ part rest, parts = part :: rest ∧ FieldWritten s next members field part ∧
        AllWritten s next (unspent [field.2] members) fields rest := by
  have hothers : (∀ other ∈ fields, other.2 ∉ [field.2]) ↔ field.2 ∉ fields.map Prod.snd := by
    simp only [List.mem_singleton, List.mem_map, not_exists, not_and]
  constructor
  · rintro ⟨hdistinct, hwritten⟩
    obtain ⟨hnew, hnames⟩ := List.nodup_cons.mp hdistinct
    obtain ⟨part, rest, hfield, hfields, rfl⟩ := List.forall₂_cons_left_iff.mp hwritten
    exact ⟨part, rest, rfl, hfield, hnames,
      forall₂_fieldWritten_unspent_iff.mpr ⟨hothers.mpr hnew, hfields⟩⟩
  · rintro ⟨part, rest, rfl, hfield, hnames, hwritten⟩
    obtain ⟨hnew, hfields⟩ := forall₂_fieldWritten_unspent_iff.mp hwritten
    exact ⟨List.nodup_cons.mpr ⟨hothers.mp hnew, hnames⟩, .cons hfield hfields⟩

theorem firstStopped_cons_iff {members : List (Text × Value)} {field : NamedField × Text}
    {fields : List (NamedField × Text)} {err : EncodeError} :
    FirstStopped s next container members (field :: fields) err ↔
      Stopped s next container members field err ∨
        (∃ part, FieldWritten s next members field part) ∧
          FirstStopped s next container (unspent [field.2] members) fields err := by
  constructor
  · rintro ⟨before, stopped, after, parts, hsplit, hbefore, hstopped⟩
    cases before with
    | nil =>
      obtain ⟨rfl, rfl⟩ := List.cons.inj hsplit
      rw [List.map_nil, unspent_nil] at hstopped
      exact .inl hstopped
    | cons first before =>
      obtain ⟨rfl, rfl⟩ := List.cons.inj hsplit
      obtain ⟨part, rest, rfl, hfield, hrest⟩ := allWritten_cons_iff.mp hbefore
      rw [List.map_cons, ← unspent_unspent] at hstopped
      exact .inr ⟨⟨part, hfield⟩, before, stopped, after, rest, rfl, hrest, hstopped⟩
  · rintro (hstopped | ⟨⟨part, hfield⟩, before, stopped, after, rest, rfl, hrest, hstopped⟩)
    · refine ⟨[], field, fields, [], rfl, allWritten_nil_iff.mpr rfl, ?_⟩
      rwa [List.map_nil, unspent_nil]
    · refine ⟨field :: before, stopped, after, part :: rest, rfl,
        allWritten_cons_iff.mpr ⟨part, rest, rfl, hfield, hrest⟩, ?_⟩
      rwa [List.map_cons, ← unspent_unspent]

@[simp] theorem not_firstStopped_nil {members : List (Text × Value)} {err : EncodeError} :
    ¬FirstStopped s next container members [] err := by
  rintro ⟨before, field, after, parts, hsplit, _⟩
  cases before <;> nomatch hsplit

/-! ## The loop -/

theorem fieldsOf_of_mem {members : List (Text × Value)} (distinct : (members.map Prod.fst).Nodup)
    {name : Text} {v : Value} (h : (name, v) ∈ members) (field : NamedField)
    (fields : List NamedField) (names : List Text) :
    fieldsOf s next container (field :: fields) (name :: names) (Value.entriesOf members) =
      (follow s next field.type v >>= fun _ =>
        fieldsOf s next container fields names (Value.entriesOf (unspent [name] members))) := by
  rw [fieldsOf, takeEntry_of_mem distinct h]

theorem fieldsOf_of_absent {members : List (Text × Value)} {name : Text}
    (h : ∀ v, (name, v) ∉ members) (field : NamedField) (fields : List NamedField)
    (names : List Text) :
    fieldsOf s next container (field :: fields) (name :: names) (Value.entriesOf members) =
      Output.fail (.missingField container field.displayName) := by
  rw [fieldsOf, takeEntry_of_absent h]

theorem eq_of_mem_members {members : List (Text × Value)} (distinct : (members.map Prod.fst).Nodup)
    {name : Text} {v w : Value} (hv : (name, v) ∈ members) (hw : (name, w) ∈ members) : v = w :=
  (Prod.mk.inj (List.inj_on_of_nodup_map distinct hv hw rfl)).2

/-- Fields are written exactly if each has a member that is accepted, under a name of its own. -/
theorem fieldsOf_yields_iff {members : List (Text × Value)}
    (distinct : (members.map Prod.fst).Nodup) {fields : List NamedField} {names : List Text}
    {bytes : List UInt8} {rest : List (Key × Value)} :
    (fieldsOf s next container fields names (Value.entriesOf members)).Yields bytes rest ↔
      ∃ parts, AllWritten s next members (fields.zip names) parts ∧ bytes = parts.flatten ∧
        rest = Value.entriesOf (unspent ((fields.zip names).map Prod.snd) members) := by
  induction fields generalizing names members bytes with
  | nil =>
    simp [fieldsOf, eq_comm]
  | cons field fields ih =>
    cases names with
    | nil =>
      simp [fieldsOf, eq_comm]
    | cons name names =>
      rw [List.zip_cons_cons, List.map_cons, ← unspent_unspent]
      constructor
      · intro h
        by_cases hmem : ∃ v, (name, v) ∈ members
        · obtain ⟨v, hv⟩ := hmem
          rw [fieldsOf_of_mem distinct hv, Output.yields_bind_iff] at h
          obtain ⟨part, _, back, hpart, hback, rfl⟩ := h
          obtain ⟨parts, hparts, rfl, hrest⟩ := (ih (nodup_unspent distinct [name])).mp hback
          exact ⟨part :: parts, allWritten_cons_iff.mpr ⟨part, parts, rfl, ⟨v, hv, hpart⟩, hparts⟩,
            rfl, hrest⟩
        · rw [fieldsOf_of_absent (not_exists.mp hmem)] at h
          exact absurd h Output.not_yields_fail
      · rintro ⟨parts, hparts, rfl, hrest⟩
        obtain ⟨part, parts, rfl, ⟨v, hv, hpart⟩, hparts⟩ := allWritten_cons_iff.mp hparts
        rw [fieldsOf_of_mem distinct hv, Output.yields_bind_iff]
        exact ⟨part, (), parts.flatten, hpart,
          (ih (nodup_unspent distinct [name])).mpr ⟨parts, hparts, rfl, hrest⟩, rfl⟩

/-- Fields fail with the error of the first one that stops the struct. -/
theorem fieldsOf_error_iff {members : List (Text × Value)}
    (distinct : (members.map Prod.fst).Nodup) {fields : List NamedField} {names : List Text}
    {err : EncodeError} :
    (fieldsOf s next container fields names (Value.entriesOf members)).outcome = .error err ↔
      FirstStopped s next container members (fields.zip names) err := by
  induction fields generalizing names members with
  | nil => exact ⟨nofun, fun h => absurd h not_firstStopped_nil⟩
  | cons field fields ih =>
    cases names with
    | nil => exact ⟨nofun, fun h => absurd h not_firstStopped_nil⟩
    | cons name names =>
      rw [List.zip_cons_cons, firstStopped_cons_iff]
      by_cases hmem : ∃ v, (name, v) ∈ members
      · obtain ⟨v, hv⟩ := hmem
        rw [fieldsOf_of_mem distinct hv, Output.outcome_bind_error_iff]
        refine or_congr ⟨fun h => .refused hv h, fun h => ?_⟩ ?_
        · cases h with
          | absent h => exact absurd hv (h v)
          | refused hw h => rwa [eq_of_mem_members distinct hv hw]
        · constructor
          · rintro ⟨part, _, hpart, hrest⟩
            exact ⟨⟨part, v, hv, hpart⟩, (ih (nodup_unspent distinct [name])).mp hrest⟩
          · rintro ⟨⟨part, w, hw, hpart⟩, hrest⟩
            obtain rfl := eq_of_mem_members distinct hv hw
            exact ⟨part, (), hpart, (ih (nodup_unspent distinct [name])).mpr hrest⟩
      · have habsent := not_exists.mp hmem
        rw [fieldsOf_of_absent habsent]
        constructor
        · intro h
          obtain rfl := Except.error.inj h
          exact .inl (.absent habsent)
        · rintro (h | ⟨⟨part, w, hw, _⟩, _⟩)
          · cases h with
            | absent _ => rfl
            | refused hw _ => exact absurd hw (habsent _)
          · exact absurd hw (habsent w)

/-! ## Structs -/

theorem map_snd_zip_fields {fields : List NamedField} {names : List Text}
    (h : fields.length ≤ names.length) :
    (fields.zip names).map Prod.snd = names.take fields.length := by
  rw [List.zip_eq_zip_take_min, Nat.min_eq_left h, List.map_snd_zip]
  rw [List.length_take, List.length_take]
  omega

theorem mem_names_of_written {members : List (Text × Value)} {fields : List (NamedField × Text)}
    {parts : List (List UInt8)} (h : List.Forall₂ (FieldWritten s next members) fields parts)
    {name : Text} (hname : name ∈ fields.map Prod.snd) : name ∈ members.map Prod.fst := by
  induction h with
  | nil => cases hname
  | cons hfield _ ih =>
    rcases List.mem_cons.mp hname with rfl | hname
    · obtain ⟨v, hv, _⟩ := hfield
      exact List.mem_map_of_mem hv
    · exact ih hname

theorem unspent_eq_nil_iff {members : List (Text × Value)} {names : List Text} :
    unspent names members = [] ↔ ∀ name ∈ members.map Prod.fst, name ∈ names := by
  simp only [unspent, List.filter_eq_nil_iff, decide_eq_true_iff, not_not, List.forall_mem_map]

section Struct

variable {fields : List NamedField} {link : Link} {v : Value} {m : Mapping} {table : NameTable}
  {members : List (Text × Value)}

theorem struct_eq (hm : v.mapping? = some m) (hentries : m.entries = Value.entriesOf members)
    (htable : s.table? link = some table) (hlength : fields.length ≤ table.names.length) :
    struct s next container fields link v =
      (fieldsOf s next container fields table.names (Value.entriesOf members) >>= fun rest =>
        if rest.isEmpty then pure () else Output.fail (.unused (.map rest))) := by
  unfold struct
  simp only [hm, htable, hentries]
  exact if_neg (Nat.not_lt.mpr hlength)

@[simp] theorem isEmpty_entriesOf (members : List (Text × Value)) :
    (Value.entriesOf members).isEmpty = true ↔ members = [] := by
  rw [List.isEmpty_iff, Value.entriesOf, List.map_eq_nil_iff]

theorem struct_yields_iff (hm : v.mapping? = some m) (hentries : m.entries = Value.entriesOf members)
    (distinct : (members.map Prod.fst).Nodup) (htable : s.table? link = some table)
    (hlength : fields.length ≤ table.names.length) {bytes : List UInt8} :
    (struct s next container fields link v).Yields bytes () ↔
      ∃ parts, AllWritten s next members (fields.zip table.names) parts ∧
        unspent (table.names.take fields.length) members = [] ∧ bytes = parts.flatten := by
  rw [struct_eq hm hentries htable hlength, Output.yields_bind_iff]
  constructor
  · rintro ⟨front, rest, back, hfields, hrest, rfl⟩
    obtain ⟨parts, hparts, rfl, rfl⟩ := (fieldsOf_yields_iff distinct).mp hfields
    rw [map_snd_zip_fields hlength] at hrest
    split at hrest
    · rename_i hempty
      obtain ⟨rfl, _⟩ := Output.yields_pure_iff.mp hrest
      exact ⟨parts, hparts, (isEmpty_entriesOf _).mp hempty, List.append_nil _⟩
    · exact absurd hrest Output.not_yields_fail
  · rintro ⟨parts, hparts, hempty, rfl⟩
    refine ⟨parts.flatten, _, [], (fieldsOf_yields_iff distinct).mpr ⟨parts, hparts, rfl, rfl⟩, ?_,
      (List.append_nil _).symm⟩
    rw [map_snd_zip_fields hlength, if_pos ((isEmpty_entriesOf _).mpr hempty)]
    exact Output.yields_pure_iff.mpr ⟨rfl, rfl⟩

theorem struct_error_iff (hm : v.mapping? = some m) (hentries : m.entries = Value.entriesOf members)
    (distinct : (members.map Prod.fst).Nodup) (htable : s.table? link = some table)
    (hlength : fields.length ≤ table.names.length) {err : EncodeError} :
    (struct s next container fields link v).outcome = .error err ↔
      FirstStopped s next container members (fields.zip table.names) err ∨
        (∃ parts, AllWritten s next members (fields.zip table.names) parts) ∧
          unspent (table.names.take fields.length) members ≠ [] ∧
          err = .unused (.map (Value.entriesOf (unspent (table.names.take fields.length) members))) := by
  rw [struct_eq hm hentries htable hlength, Output.outcome_bind_error_iff]
  refine or_congr (fieldsOf_error_iff distinct) ⟨?_, ?_⟩
  · rintro ⟨front, rest, hfields, hrest⟩
    obtain ⟨parts, hparts, rfl, rfl⟩ := (fieldsOf_yields_iff distinct).mp hfields
    rw [map_snd_zip_fields hlength] at hrest
    split at hrest
    · nomatch hrest
    · rename_i hempty
      exact ⟨⟨parts, hparts⟩, mt (isEmpty_entriesOf _).mpr hempty, (Except.error.inj hrest).symm⟩
  · rintro ⟨⟨parts, hparts⟩, hne, rfl⟩
    refine ⟨_, _, (fieldsOf_yields_iff distinct).mpr ⟨parts, hparts, rfl, rfl⟩, ?_⟩
    rw [map_snd_zip_fields hlength, if_neg (mt (isEmpty_entriesOf _).mp hne)]
    rfl

theorem exists_table_of_struct_yields {bytes : List UInt8}
    (h : (struct s next container fields link v).Yields bytes ()) :
    ∃ table, s.table? link = some table ∧ fields.length ≤ table.names.length := by
  unfold struct at h
  split at h
  · exact absurd h Output.not_yields_fail
  · split at h
    · exact absurd h Output.not_yields_fail
    · rename_i table htable
      split at h
      · exact absurd h Output.not_yields_fail
      · rename_i hlength
        exact ⟨table, htable, Nat.not_lt.mp hlength⟩

end Struct

end Fields

/-- A struct at an entry of the type table is written exactly if its row has a name for every field,
no name twice, the members are the fields, and each member is accepted. -/
theorem struct_byIndex_yields_iff {s : Schema} {next : Visit} {container : Text}
    {fields : List NamedField} {i : Nat} {v : Value} {m : Mapping} {members : List (Text × Value)}
    (hm : v.mapping? = some m) (hentries : m.entries = Value.entriesOf members)
    (distinct : (members.map Prod.fst).Nodup) {bytes : List UInt8} :
    (struct s next container fields (.byIndex i) v).Yields bytes () ↔
      ∃ row parts, s.rows[i]? = some row ∧ fields.length ≤ row.members.length ∧
        (row.members.take fields.length).Nodup ∧
        (∀ name, name ∈ members.map Prod.fst ↔ name ∈ row.members.take fields.length) ∧
        List.Forall₂ (FieldWritten s next members) (fields.zip row.members) parts ∧
        bytes = parts.flatten := by
  constructor
  · intro h
    obtain ⟨table, htable, hlength⟩ := exists_table_of_struct_yields h
    obtain ⟨parts, hparts, hempty, rfl⟩ :=
      (struct_yields_iff hm hentries distinct htable hlength).mp h
    obtain ⟨row, hrow, rfl⟩ := Schema.table?_byIndex_eq_some_iff.mp htable
    have hnames := map_snd_zip_fields hlength
    refine ⟨row, parts, hrow, hlength, hnames ▸ hparts.distinct, fun name => ⟨?_, ?_⟩,
      hparts.written, rfl⟩
    · exact unspent_eq_nil_iff.mp hempty name
    · exact fun hname => mem_names_of_written hparts.written (hnames ▸ hname)
  · rintro ⟨row, parts, hrow, hlength, hdistinct, hkeys, hwritten, rfl⟩
    have htable := Schema.table?_byIndex_eq_some_iff.mpr ⟨row, hrow, rfl⟩
    have hnames := map_snd_zip_fields hlength
    refine (struct_yields_iff hm hentries distinct htable hlength).mpr
      ⟨parts, ⟨hnames.symm ▸ hdistinct, hwritten⟩, ?_, rfl⟩
    exact unspent_eq_nil_iff.mpr fun name => (hkeys name).mp

end Encode

namespace Encoder

open Encode (visit FieldWritten AllWritten FirstStopped Stands)

/-- Structs are strict. A struct is written exactly if the members of its value are its fields, by
the distinct first names of its row, and each is accepted by the next level; the bytes are the parts
of the fields in the order of the schema. With a row that is long enough it fails exactly with the
error of the first field that stops it, or, if all fields are written, with the members in excess.
Wherever a struct stands in a value that is encoded, its members are its fields, each once. -/
theorem struct_exact (e : Encoder) (i : Nat) (name : Text) (fields : List NamedField)
    (template : Option Text) (peekable : Bool) {v : Value} {m : Mapping}
    {members : List (Text × Value)} (hm : v.mapping? = some m)
    (hentries : m.entries = Value.entriesOf members) (distinct : (members.map Prod.fst).Nodup) :
    (∀ levels bytes,
      (visit e (levels + 1) (.struct name fields template peekable) (.byIndex i) v).Yields bytes () ↔
        ∃ row parts, e.schema.rows[i]? = some row ∧ fields.length ≤ row.members.length ∧
          (row.members.take fields.length).Nodup ∧
          (∀ t, t ∈ members.map Prod.fst ↔ t ∈ row.members.take fields.length) ∧
          List.Forall₂ (FieldWritten e.schema (visit e levels) members) (fields.zip row.members)
            parts ∧ bytes = parts.flatten) ∧
    (∀ levels row err, e.schema.rows[i]? = some row → fields.length ≤ row.members.length →
      let excess := Encode.unspent (row.members.take fields.length) members
      ((visit e (levels + 1) (.struct name fields template peekable) (.byIndex i) v).outcome =
          .error err ↔
        FirstStopped e.schema (visit e levels) name members (fields.zip row.members) err ∨
          (∃ parts, AllWritten e.schema (visit e levels) members (fields.zip row.members) parts) ∧
            excess ≠ [] ∧ err = .unused (.map (Value.entriesOf excess)))) ∧
    ∀ levels index root bytes, e.encodeWithin levels index root = .ok bytes →
      Stands e.schema index root (.struct name fields template peekable) (.byIndex i) v →
      ∃ row, e.schema.rows[i]? = some row ∧ (row.members.take fields.length).Nodup ∧
        (members.map Prod.fst).Perm (row.members.take fields.length) := by
  refine ⟨fun levels bytes => Encode.struct_byIndex_yields_iff hm hentries distinct,
    fun levels row err hrow hlength => ?_, fun levels index root bytes h hstands => ?_⟩
  · exact Encode.struct_error_iff hm hentries distinct
      (Schema.table?_byIndex_eq_some_iff.mpr ⟨row, hrow, rfl⟩) hlength
  · obtain ⟨own, ⟨depth, hown⟩, _⟩ := writes_of_stands h hstands
    cases depth with
    | zero => exact absurd hown Output.not_yields_fail
    | succ depth =>
      obtain ⟨row, parts, hrow, _, hdistinct, hkeys, _⟩ :=
        (Encode.struct_byIndex_yields_iff hm hentries distinct).mp hown
      exact ⟨row, hrow, hdistinct, (List.perm_ext_iff_of_nodup distinct hdistinct).mpr hkeys⟩

end Encoder

/-- The two fields of a lamp. -/
def NamedField.lamp : List NamedField :=
  [⟨"On", .immediate .boolean, false, ""⟩, ⟨"Dimmed", .immediate .boolean, false, ""⟩]

/-- A lamp, in a row with one name more than there are fields. -/
def Schema.lamps : Schema :=
  build [.struct "Lamp" NamedField.lamp none false] [0] [⟨"Lamp", ["on", "dimmed", "broken"]⟩] none
    [] []

/-- The members of a lamp that is on and not dimmed. -/
def Value.brightLamp : List (Text × Value) := [("dimmed", .bool false), ("on", .bool true)]

theorem Encoder.brightLamp_exact :
    (Value.map (Value.entriesOf Value.brightLamp)).mapping? =
        some ⟨.ok 2, Value.entriesOf Value.brightLamp⟩ ∧
      (Value.brightLamp.map Prod.fst).Nodup ∧
      (Encode.visit ⟨.lamps, .default⟩ 257 (.struct "Lamp" NamedField.lamp none false) (.byIndex 0)
        (.map (Value.entriesOf Value.brightLamp))).Yields [1, 0] () := by
  have h := struct_exact ⟨.lamps, .default⟩ 0 "Lamp" NamedField.lamp none false
    (v := .map (Value.entriesOf Value.brightLamp)) rfl rfl (by decide)
  refine ⟨rfl, by decide,
    (h.1 256 [1, 0]).mpr ⟨_, [[1], [0]], rfl, by decide, by decide, ?_, ?_, rfl⟩⟩
  · exact fun t => (List.Perm.swap ("on" : Text) "dimmed" []).mem_iff
  · exact .cons ⟨.bool true, .tail _ (.head _), rfl⟩ (.cons ⟨.bool false, .head _, rfl⟩ .nil)

end BorshWire
