import BorshWire.CommandLine.Program
import BorshWire.Proofs.Bytes.Utf8
import BorshWire.Proofs.Json.RoundTrip
import BorshWire.Proofs.Refusal.Vocabulary

/-!
# The program as a front end

`CommandLine.run_eq_ending`: asked to encode a file against a file, the program ends with what the
library makes of their contents (`CommandLine.answer`): the bytes in hexadecimal and code zero, or
code one and a report of the refusal, and nothing else but what it was asked to tell.

Failures that have no kind are not reported and end the program as they are. Besides documents that
nest too deeply these are files that are no UTF-8 (`CommandLine.run_badSchema`), although the loader
of schemas refuses such bytes with a kind where they are given to it, and the byte texts in decimal
that have no kind either.
-/

namespace BorshWire

/-! ## Values of documents hold no views -/

namespace Value

theorem anyHoldsView_eq_false {items : List Value} (h : ∀ v ∈ items, v.holdsView = false) :
    anyHoldsView items = false := by
  induction items with
  | nil => rfl
  | cons v rest ih =>
    obtain ⟨hv, hrest⟩ := List.forall_mem_cons.mp h
    rw [anyHoldsView, hv, ih hrest, Bool.or_false]

theorem entriesHoldView_eq_false {entries : List (Key × Value)}
    (h : ∀ e ∈ entries, e.2.holdsView = false) : entriesHoldView entries = false := by
  induction entries with
  | nil => rfl
  | cons e rest ih =>
    obtain ⟨he, hrest⟩ := List.forall_mem_cons.mp h
    rw [entriesHoldView, he, ih hrest, Bool.or_false]

theorem OfDocument.holdsView_eq_false {v : Value} (h : v.OfDocument) : v.holdsView = false := by
  induction h with
  | list _ ih => exact anyHoldsView_eq_false ih
  | map _ _ ih => exact entriesHoldView_eq_false ih
  | _ => rfl

end Value

theorem Schema.ofDocument_ne_holdsView (doc : Document) : ofDocument doc ≠ .error .holdsView := by
  unfold ofDocument
  split
  · nofun
  · rename_i v hv
    unfold ofValue
    split
    · nofun
    · split
      · rw [if_neg (by simp [(Document.ofDocument_of_parse hv).holdsView_eq_false])]
        nofun
      · nofun

namespace CommandLine

/-! ## What the library makes of two files -/

/-- What is encoded against: an entry of the type table, or a role. -/
inductive Target where
  | index (n : Int)
  | role (r : Role)

/-- The target that options give. -/
def Options.target? (o : Options) : Option Target :=
  match o.type, o.role with
  | some (some n), _ => some (.index n)
  | none, some (some r) => some (.role r)
  | _, _ => none

/-- The root index of a target. -/
def Target.root (target : Target) (e : Encoder) : Except EncodeError Value :=
  match target with
  | .index n => .ok (.int n)
  | .role r => (e.roleIndex r).map .int

/-- A document file encoded against a schema file, under the limits that hold by default. -/
def answer (stack : Stack) (target : Target) (schemaFile inputFile : List UInt8) :
    Except Failure (List UInt8) := do
  let schema ← (textOfFile schemaFile).mapError .undecodable
  let s ← (Schema.ofDocument (.text schema)).mapError .schema
  let e : Encoder := ⟨s, Config.default⟩
  let index ← (target.root e).mapError .encode
  let document ← (textOfFile inputFile).mapError .undecodable
  (e.encodeDocument stack index (.text document)).mapError .encode

/-- The kind under which a failure is reported; one without a kind is not. -/
def Failure.kind? : Failure → Option ErrorKind
  | schema (.document .tooDeep) => none
  | schema .holdsView => none
  | schema _ => some .invalidSchema
  | encode error => error.kind?
  | _ => none

/-- How the program ends with an answer, after lines that it told. -/
def ending (told : List Text) : Except Failure (List UInt8) → Ending
  | .ok data => .exit 0 (.text (Text.hexOfBytes data ++ [0x0A])) (.text (lines told))
  | .error failure =>
    match failure.kind? with
    | some kind => .exit 1 (.text []) (.text (lines (told ++ [report kind failure.message])))
    | none => .crash failure

/-! ## Work that ends -/

/-- A failure that has a kind breaks the work off with a report, any other without. -/
def Failure.stop (failure : Failure) : Stop :=
  match failure.kind? with
  | some kind => .report (report kind failure.message)
  | none => .crash failure

/-- The work ends like this, after lines that are told only if telling is asked for. -/
def Ends {α : Type} (verbose : Bool) (x : Work α) (r : Except Failure α) : Prop :=
  ∃ told, (verbose = false → told = []) ∧
    ∀ before, x.run.run before = (r.mapError Failure.stop, before ++ told)

namespace Ends

variable {α β : Type} {verbose : Bool}

theorem pure (a : α) : Ends verbose (Pure.pure a) (.ok a) :=
  ⟨[], fun _ => rfl, fun before => congrArg (_, ·) (List.append_nil before).symm⟩

theorem throw (failure : Failure) :
    Ends verbose (MonadExcept.throw failure.stop : Work α) (.error failure) :=
  ⟨[], fun _ => rfl, fun before => congrArg (_, ·) (List.append_nil before).symm⟩

theorem report (failure : Failure) {kind : ErrorKind} (h : failure.kind? = some kind) :
    Ends verbose (MonadExcept.throw (.report (CommandLine.report kind failure.message)) : Work α)
      (.error failure) := by
  have hthrow : Ends verbose (MonadExcept.throw failure.stop : Work α) (.error failure) :=
    throw failure
  rwa [Failure.stop, h] at hthrow

theorem crash (failure : Failure) (h : failure.kind? = none) :
    Ends verbose (MonadExcept.throw (.crash failure) : Work α) (.error failure) := by
  have hthrow : Ends verbose (MonadExcept.throw failure.stop : Work α) (.error failure) :=
    throw failure
  rwa [Failure.stop, h] at hthrow

/-- What the first part tells comes first. -/
theorem bind {x : Work α} {f : α → Work β} {r : Except Failure α} {g : α → Except Failure β}
    (h : Ends verbose x r) (hf : ∀ a, Ends verbose (f a) (g a)) :
    Ends verbose (x >>= f) (r >>= g) := by
  obtain ⟨told, hquiet, hx⟩ := h
  have hrun : ∀ before, (x >>= f).run.run before =
      ((ExceptT.bindCont f (r.mapError Failure.stop)).run (before ++ told)) := by
    intro before
    show (x.run >>= ExceptT.bindCont f).run before = _
    rw [StateT.run_bind, hx]
    rfl
  cases r with
  | error failure => exact ⟨told, hquiet, hrun⟩
  | ok a =>
    obtain ⟨more, hquiet', hfa⟩ := hf a
    refine ⟨told ++ more, fun h => by rw [hquiet h, hquiet' h, List.append_nil], fun before => ?_⟩
    rw [hrun, ← List.append_assoc]
    exact hfa (before ++ told)

end Ends

theorem Ends.after_tell {α : Type} {verbose : Bool} {x : Work α} {r : Except Failure α}
    (h : Ends verbose x r) (logger message : Text) :
    Ends verbose (tell verbose logger message >>= fun _ => x) r := by
  have htell : Ends verbose (tell verbose logger message) (.ok ()) := by
    cases verbose with
    | false => exact .pure ()
    | true => exact ⟨[_], nofun, fun _ => rfl⟩
  exact htell.bind (g := fun _ => r) fun _ => h

theorem readText_ends {env : Surroundings} {path : Text} {data : List UInt8}
    (h : env.entry path = .file data) (verbose : Bool) :
    Ends verbose (readText env path) ((textOfFile data).mapError .undecodable) := by
  unfold readText
  rw [h]
  dsimp only [Entry.read]
  cases textOfFile data with
  | ok t => exact .pure t
  | error e => exact .crash _ rfl

theorem schemaOf_ends (r : Except SchemaError Schema) (verbose : Bool) :
    Ends verbose (schemaOf r) (r.mapError .schema) := by
  unfold schemaOf
  split
  · exact .pure _
  · exact .crash _ rfl
  · exact .crash _ rfl
  · rename_i e hdeep hview
    have hkind : (Failure.schema e).kind? = some .invalidSchema := by
      unfold Failure.kind?
      split <;> simp_all
    exact .report (.schema e) hkind

theorem encodedOf_ends {α : Type} (r : Except EncodeError α) (verbose : Bool) :
    Ends verbose (encodedOf r) (r.mapError .encode) := by
  unfold encodedOf
  cases r with
  | ok a => exact .pure a
  | error e =>
    dsimp only
    split
    · rename_i kind hkind
      exact .report (.encode e) hkind
    · rename_i hkind
      exact .crash (.encode e) hkind

theorem targetIndex_ends {o : Options} {target : Target} (h : o.target? = some target)
    (e : Encoder) : Ends o.verbose (targetIndex o e) ((target.root e).mapError .encode) := by
  unfold Options.target? at h
  unfold targetIndex
  split at h
  · rename_i n htype
    obtain rfl := Option.some.inj h
    rw [htype]
    exact .pure _
  · rename_i r htype hrole
    obtain rfl := Option.some.inj h
    rw [htype, hrole]
    have hrole : ((Target.role r).root e).mapError Failure.encode =
        ((e.roleIndex r).mapError Failure.encode >>= fun index => .ok (.int index)) := by
      show ((e.roleIndex r).map Value.int).mapError _ = _
      cases e.roleIndex r <;> rfl
    rw [hrole]
    exact (encodedOf_ends _ _).bind fun index => (Ends.pure _).after_tell _ _
  · cases h

/-- The work is what the library makes of the two files, printed in hexadecimal. -/
theorem work_ends {env : Surroundings} {o : Options} {target : Target} {path : Text}
    {schemaFile inputFile : List UInt8} (htarget : o.target? = some target)
    (hanalyze : o.analyze = false) (hinput : o.input.isEmpty = false)
    (hschemaFile : env.entry path = .file schemaFile)
    (hinputFile : env.entry (plainPath o.input) = .file inputFile) :
    Ends o.verbose (work env o path)
      (answer env.stack target schemaFile inputFile >>= fun data =>
        .ok (Text.hexOfBytes data ++ [0x0A])) := by
  unfold work answer
  simp only [hanalyze, hinput, Bool.false_eq_true, if_false, bind_assoc]
  refine (readText_ends hschemaFile _).bind fun schema => ?_
  refine (schemaOf_ends _ _).bind fun s => ?_
  refine Ends.after_tell ?_ _ _
  refine (targetIndex_ends htarget _).bind fun index => ?_
  refine (readText_ends hinputFile _).bind fun document => ?_
  exact (encodedOf_ends _ _).bind fun data => (Ends.pure _).after_tell _ _

/-- The program ends with the answer of the library, after what it told. -/
theorem exists_ending {env : Surroundings} {o : Options} {target : Target} {path : Text}
    {schemaFile inputFile : List UInt8} (htarget : o.target? = some target)
    (hanalyze : o.analyze = false) (hinput : o.input.isEmpty = false)
    (hschemaFile : env.entry path = .file schemaFile)
    (hinputFile : env.entry (plainPath o.input) = .file inputFile) :
    ∃ told, (o.verbose = false → told = []) ∧
      finish env o path = ending told (answer env.stack target schemaFile inputFile) := by
  obtain ⟨told, hquiet, hwork⟩ := work_ends htarget hanalyze hinput hschemaFile hinputFile
  refine ⟨told, hquiet, ?_⟩
  rw [finish, hwork, List.nil_append]
  cases answer env.stack target schemaFile inputFile with
  | ok data => rfl
  | error failure =>
    have hstop : ((.error failure >>= fun data => .ok (Text.hexOfBytes data ++ [0x0A]) :
        Except Failure Text).mapError Failure.stop) = .error failure.stop := rfl
    rw [hstop, ending, Failure.stop]
    cases failure.kind? <;> rfl

theorem ok_bind {ε ε' α β : Type} (a : α) (g : ε → ε') (f : α → Except ε' β) :
    ((Except.ok a).mapError g >>= f) = f a := rfl

theorem error_cases {ε α β : Type} {x : Except ε α} {g : ε → Failure}
    {f : α → Except Failure β} {failure : Failure} (h : (x.mapError g >>= f) = .error failure) :
    (∃ e, x = .error e ∧ failure = g e) ∨ ∃ a, x = .ok a ∧ f a = .error failure := by
  cases x with
  | error e => exact .inl ⟨e, rfl, (Except.error.inj h).symm⟩
  | ok a => exact .inr ⟨a, rfl, h⟩

theorem eq_tooDeep_of_schema {doc : Document} {error : SchemaError}
    (h : Schema.ofDocument doc = .error error) (hkind : (Failure.schema error).kind? = none) :
    error = .document .tooDeep := by
  unfold Failure.kind? at hkind
  split at hkind
  · rename_i heq
    exact Failure.schema.inj heq
  · rename_i heq
    obtain rfl := Failure.schema.inj heq
    exact absurd h (Schema.ofDocument_ne_holdsView doc)
  all_goals simp_all

theorem Target.root_cases (target : Target) (e : Encoder) :
    (∃ n : Int, target.root e = .ok (.int n)) ∨
      ∃ r, target.root e = .error (.undeclaredRole r) := by
  cases target with
  | index n => exact .inl ⟨n, rfl⟩
  | role r =>
    have hroot : (Target.role r).root e = (e.roleIndex r).map .int := rfl
    rw [hroot, Encoder.roleIndex]
    cases e.schema.root? r with
    | some n => exact .inl ⟨n, rfl⟩
    | none => exact .inr ⟨r, rfl⟩

/-- A refusal of a document has a kind, unless the document nests too deeply or a byte text holds a
number of too many digits. -/
theorem encodeDocument_without_kind {e : Encoder} {stack : Stack} {index : Int} {doc : Document}
    {error : EncodeError} (h : e.encodeDocument stack (.int index) doc = .error error)
    (hkind : error.kind? = none) :
    error = .document .tooDeep ∨ ∃ digits, error = .byteText (.digitLimit digits) := by
  unfold Encoder.encodeDocument at h
  cases hparse : doc.parse false with
  | error fault =>
    rw [hparse] at h
    obtain rfl := Except.error.inj h
    cases fault with
    | tooDeep => exact .inl rfl
    | _ => cases hkind
  | ok v =>
    rw [hparse] at h
    have hv := Document.ofDocument_of_parse hparse
    rcases Encoder.encodeWithin_document hv _ index h with ⟨kind, hsome⟩ | ⟨digits, herr, _⟩
    · exact absurd (hsome.symm.trans hkind) nofun
    · exact .inr ⟨digits, herr⟩

/-- An answer without a kind: a file that is no UTF-8, a document that nests too deeply, or a number
of too many digits in a byte text. -/
theorem answer_without_kind {stack : Stack} {target : Target} {schemaFile inputFile : List UInt8}
    {failure : Failure} (h : answer stack target schemaFile inputFile = .error failure)
    (hkind : failure.kind? = none) :
    (∃ fault, failure = .undecodable fault ∧
        (textOfFile schemaFile = .error fault ∨ textOfFile inputFile = .error fault)) ∨
      failure = .schema (.document .tooDeep) ∨ failure = .encode (.document .tooDeep) ∨
      ∃ digits, failure = .encode (.byteText (.digitLimit digits)) := by
  unfold answer at h
  rcases error_cases h with ⟨fault, hfile, rfl⟩ | ⟨schema, -, h⟩
  · exact .inl ⟨fault, rfl, .inl hfile⟩
  rcases error_cases h with ⟨error, hschema, rfl⟩ | ⟨s, -, h⟩
  · exact .inr (.inl (congrArg _ (eq_tooDeep_of_schema hschema hkind)))
  rcases error_cases h with ⟨error, hroot, rfl⟩ | ⟨index, hroot, h⟩
  · rcases target.root_cases ⟨s, Config.default⟩ with ⟨n, hn⟩ | ⟨r, hr⟩
    · cases hn.symm.trans hroot
    · obtain rfl := Except.error.inj (hr.symm.trans hroot)
      cases hkind
  rcases error_cases h with ⟨fault, hfile, rfl⟩ | ⟨document, -, h⟩
  · exact .inl ⟨fault, rfl, .inr hfile⟩
  rcases target.root_cases ⟨s, Config.default⟩ with ⟨n, hn⟩ | ⟨r, hr⟩
  · obtain rfl := Except.ok.inj (hn.symm.trans hroot)
    cases hencode : Encoder.encodeDocument ⟨s, Config.default⟩ stack (.int n) (.text document) with
    | ok data =>
      rw [hencode] at h
      cases h
    | error error =>
      rw [hencode] at h
      obtain rfl := Except.error.inj h
      rcases encodeDocument_without_kind hencode hkind with rfl | ⟨digits, rfl⟩
      · exact .inr (.inr (.inl rfl))
      · exact .inr (.inr (.inr ⟨digits, rfl⟩))
  · cases hr.symm.trans hroot

/-- The program is a front end of the library. Asked to encode a file against a file, it ends with
the library's answer: the bytes in hexadecimal with code zero, or a report with code one. Only an
answer without a kind ends it otherwise: a file that is no UTF-8, a document that nests too deeply,
or a number of too many digits in a byte text. -/
theorem run_eq_ending {env : Surroundings} {args : List Text} {o : Options} {target : Target}
    {schemaFile inputFile : List UInt8} (hread : read args = .work o)
    (htarget : o.target? = some target) (hanalyze : o.analyze = false)
    (hschema : o.schema.isEmpty = false) (hinput : o.input.isEmpty = false)
    (hschemaFile : env.entry (plainPath o.schema) = .file schemaFile)
    (hinputFile : env.entry (plainPath o.input) = .file inputFile) :
    (∃ told, (o.verbose = false → told = []) ∧
      run env args = ending told (answer env.stack target schemaFile inputFile)) ∧
    ∀ failure, run env args = .crash failure →
      (∃ fault, failure = .undecodable fault ∧
          (textOfFile schemaFile = .error fault ∨ textOfFile inputFile = .error fault)) ∨
        failure = .schema (.document .tooDeep) ∨ failure = .encode (.document .tooDeep) ∨
        ∃ digits, failure = .encode (.byteText (.digitLimit digits)) := by
  have hrun : run env args = finish env o (plainPath o.schema) := by
    rw [run, hread]
    simp only [hschema, hschemaFile, Entry.exists?, Bool.false_eq_true, if_false]
  obtain ⟨told, hquiet, hend⟩ := exists_ending htarget hanalyze hinput hschemaFile hinputFile
  refine ⟨⟨told, hquiet, hrun.trans hend⟩, fun failure hcrash => ?_⟩
  rw [hrun, hend] at hcrash
  cases hanswer : answer env.stack target schemaFile inputFile with
  | ok data =>
    rw [hanswer] at hcrash
    cases hcrash
  | error other =>
    rw [hanswer, ending] at hcrash
    split at hcrash
    · cases hcrash
    · rename_i hkind
      obtain rfl := Ending.crash.inj hcrash
      exact answer_without_kind hanswer hkind

/-- Two files: a schema, and a document; and a little room on the stack. -/
def twoFiles (schemaFile inputFile : List UInt8) : Surroundings :=
  ⟨fun path => .file (if path = "s.json" then schemaFile else inputFile), [], ⟨8, 8⟩⟩

/-- The arguments that ask to encode the one file against the first type of the other. -/
def firstType : List Text := ["--schema", "s.json", "--type", "0", "--input", "v.json"]

/-- A text as it stands in a file. -/
def fileOf (t : Text) : List UInt8 := t.flatMap CodePoint.utf8

theorem plainLines_eq_self {t : Text} (h : ∀ c ∈ t, c ≠ 0x0D) : plainLines t = t := by
  fun_induction plainLines t with
  | case1 => rfl
  | case2 rest ih => exact absurd rfl (h _ List.mem_cons_self)
  | case3 c rest _ ih =>
    obtain ⟨hc, hrest⟩ := List.forall_mem_cons.mp h
    rw [if_neg hc, ih hrest]

theorem textOfFile_fileOf {t : Text} (hpairs : t.any CodePoint.isSurrogate = false)
    (hlines : t.contains 0x0D = false) : textOfFile (fileOf t) = .ok t := by
  have hreturn : ∀ c ∈ t, c ≠ 0x0D := by
    rintro _ hc rfl
    rw [List.contains_iff_mem.mpr hc] at hlines
    cases hlines
  have hutf8 : Text.ofUtf8 (fileOf t) = .ok t := Encoding.decodeUtf8_utf8 hpairs 0
  rw [textOfFile, hutf8]
  exact congrArg Except.ok (plainLines_eq_self hreturn)

/-- The descriptor of a schema of one type. -/
def truthMembers : List (Text × Value) :=
  [("types", .list [.text "Boolean"]), ("root_type_indices", .list []), ("serde_metadata", .list [])]

/-- The descriptor as a document. -/
def truthSchema : Text :=
  "\x7b\"types\":[\"Boolean\"],\"root_type_indices\":[],\"serde_metadata\":[]\x7d"

theorem parse_truthSchema :
    (Document.text truthSchema).parse true = .ok (.map (Value.entriesOf truthMembers)) := by
  have hcompact : (Value.map (Value.entriesOf truthMembers)).compact = truthSchema := rfl
  rw [← hcompact]
  refine Json.parseWithin_compact (.map (by decide) ?_) true
  simp only [truthMembers, List.forall_mem_cons]
  exact ⟨.list (List.forall_mem_singleton.mpr (.text _)), .list nofun, .list nofun, nofun⟩

theorem answer_truth :
    answer ⟨8, 8⟩ (.index 0) (fileOf truthSchema) (fileOf "true") = .ok [1] := by
  have hfile : textOfFile (fileOf truthSchema) = .ok truthSchema := textOfFile_fileOf rfl rfl
  have hinput : textOfFile (fileOf "true") = .ok "true" := textOfFile_fileOf rfl rfl
  have hvalue : (Document.text "true").parse false = .ok (.bool true) := rfl
  obtain ⟨s, hs, htypes⟩ : ∃ s, Schema.ofValue (.map (Value.entriesOf truthMembers)) = .ok s ∧
      s.types[0]? = some (Ty.primitive .boolean) := ⟨_, rfl, rfl⟩
  have hload : Schema.ofDocument (.text truthSchema) = .ok s := by
    rw [Schema.ofDocument, parse_truthSchema]
    exact hs
  have hroot : (Target.index 0).root ⟨s, Config.default⟩ = .ok (.int (0 : Nat)) := rfl
  have hencode : Encoder.encodeDocument ⟨s, Config.default⟩ ⟨8, 8⟩ (.int (0 : Nat)) (.text "true") =
      .ok [1] := by
    rw [Encoder.encodeDocument, hvalue, ok_bind, Encoder.run, Encoder.encodeWithin_int, htypes]
    rfl
  rw [answer, hfile, ok_bind, hload, ok_bind]
  dsimp only
  rw [hroot, ok_bind, hinput, ok_bind, hencode]
  rfl

theorem run_truth :
    read firstType = .work ⟨"s.json", false, some (some 0), none, "v.json", false⟩ ∧
      run (twoFiles (fileOf truthSchema) (fileOf "true")) firstType =
        .exit 0 (.text [0x30, 0x31, 0x0A]) (.text []) := by
  have hread : read firstType = .work ⟨"s.json", false, some (some 0), none, "v.json", false⟩ := rfl
  have hschemaFile : (twoFiles (fileOf truthSchema) (fileOf "true")).entry
      (plainPath "s.json") = .file (fileOf truthSchema) := rfl
  have hinputFile : (twoFiles (fileOf truthSchema) (fileOf "true")).entry
      (plainPath "v.json") = .file (fileOf "true") := rfl
  obtain ⟨told, hquiet, hrun⟩ := (run_eq_ending hread rfl rfl rfl rfl hschemaFile hinputFile).1
  refine ⟨hread, hrun.trans ?_⟩
  rw [hquiet rfl]
  show ending [] (answer ⟨8, 8⟩ _ _ _) = _
  rw [answer_truth]
  rfl

/-- A schema file of a byte that starts nothing in UTF-8 ends the program without a report, although
the loader of schemas refuses the byte with a kind. -/
theorem run_badSchema :
    run (twoFiles [0xFF] (fileOf "null")) firstType =
        .crash (.undecodable ⟨.utf8, 0xFF, 0, 1, .invalidStart⟩) ∧
      Schema.ofDocument (.bytes [0xFF]) =
        .error (.document (.undecodable ⟨.utf8, 0xFF, 0, 1, .invalidStart⟩)) ∧
      (Failure.schema (.document (.undecodable ⟨.utf8, 0xFF, 0, 1, .invalidStart⟩))).kind? =
        some .invalidSchema :=
  ⟨rfl, rfl, rfl⟩

end CommandLine

end BorshWire
