import FolGraph.Proofs.Settings.Fields
import Mathlib

/-!
# Which documents hold settings

A document whose sections are tables is accepted exactly if all its keys are known and all its
values are of their kind. The settings are then what the document says, with the defaults for what
it leaves out, and so the order of the sections and of the keys below them does not matter
(`ofToml_ok_iff`).
-/

namespace FolGraph.Settings

open Toml (Value)

variable {entries entries' : List (String × Value)} {name : String} {v : Value} {s : Settings}

/-! ## What documents say -/

/-- The section is known, and so is every field in it with its value. -/
def ValidEntry (name : String) (v : Value) : Prop :=
  name ∈ ["export", "batch", "decode"] ∧
    ∀ fields, v = .table fields → ∀ f ∈ fields, Admissible name f.1 f.2

def Valid (entries : List (String × Value)) : Prop := ∀ e ∈ entries, ValidEntry e.1 e.2

/-- A section is a table, and the names in it are not. -/
def TabularEntry (name : String) (v : Value) : Prop :=
  name ∈ ["export", "batch", "decode"] → ∃ fields, v = .table fields ∧
    (name = "export" → ∀ field ∈ ["format", "encoding"], ∀ below, (field, .table below) ∉ fields)

def Tabular (entries : List (String × Value)) : Prop := ∀ e ∈ entries, TabularEntry e.1 e.2

/-- The fields of a section; a section that does not occur has none. -/
def fieldsOf (entries : List (String × Value)) (name : String) : List (String × Value) :=
  match entries.lookup name with
  | some (.table fields) => fields
  | _ => []

/-- The value that a document has for a field of a section. -/
def find? (entries : List (String × Value)) (name field : String) : Option Value :=
  (fieldsOf entries name).lookup field

/-- Each setting is what the document says or, if it says nothing, the default. -/
structure Holds (entries : List (String × Value)) (s : Settings) : Prop where
  format : (find? entries "export" "format").getD (.string "pyg") =
    .string s.exporting.format.name
  encoding : (find? entries "export" "encoding").getD (.string "json") =
    .string s.exporting.encoding.name
  workers : (find? entries "batch" "workers").getD (.integer 0) = .integer s.batch.workers
  failFast : (find? entries "batch" "fail_fast").getD (.boolean false) = .boolean s.batch.failFast
  verifyRoundTrip : (find? entries "batch" "verify_round_trip").getD (.boolean false) =
    .boolean s.batch.verifyRoundTrip
  strictArity : (find? entries "decode" "strict_arity").getD (.boolean false) =
    .boolean s.decoding.strictArity

/-- The same entries in another order, in the document or below one of its keys. -/
inductive Reordered : List (String × Value) → List (String × Value) → Prop
  | sections {es es' : List (String × Value)} (perm : es.Perm es') : Reordered es es'
  | fields {before after fs fs' : List (String × Value)} {name : String} (perm : fs.Perm fs') :
      Reordered (before ++ (name, .table fs) :: after) (before ++ (name, .table fs') :: after)
  | trans {es es' es'' : List (String × Value)} (first : Reordered es es')
      (second : Reordered es' es'') : Reordered es es''

/-! ## Acceptance -/

section
variable {α : Type} {sub : Section α} {get : Settings → α} {put : Settings → α → Settings}

/-- A section is accepted if all its entries are. -/
theorem accepts_table_iff (slot : documentSection.Slot name sub.ofValue get put)
    (regular : sub.Regular) {fields : List (String × Value)} :
    documentSection.Accepts name (.table fields) ↔ ∀ f ∈ fields, sub.Accepts f.1 f.2 :=
  slot.accepts_iff.trans regular.exists_ofEntries_iff

/-- A section is read from its fields, also if it does not occur. -/
theorem ofEntries_fieldsOf (slot : documentSection.Slot name sub.ofValue get put)
    (initial : get {} = sub.initial) (known : name ∈ ["export", "batch", "decode"])
    (distinct : (entries.map Prod.fst).Nodup) (tabular : Tabular entries)
    (done : ofDocument entries = .ok s) : sub.ofEntries (fieldsOf entries name) = .ok (get s) := by
  unfold fieldsOf
  cases found : entries.lookup name with
  | none =>
    have absent := Toml.lookup_eq_none_iff.mp found
    have kept : get s = get {} := slot.foldlM_keeps absent done
    rw [kept, initial]
    rfl
  | some v =>
    have there := Toml.mem_of_lookup found
    obtain ⟨fields, table, -⟩ := tabular _ there known
    obtain rfl : v = .table fields := table
    exact slot.read_eq_ok distinct there done

end

theorem document_accepts_iff (sound : v.Sound) (tabular : TabularEntry name v) :
    documentSection.Accepts name v ↔ ValidEntry name v := by
  unfold ValidEntry
  by_cases known : name ∈ ["export", "batch", "decode"]
  · obtain ⟨fields, rfl, simple⟩ := tabular known
    simp only [known, true_and, Value.table.injEq, forall_eq']
    obtain rfl | rfl | rfl := by simpa using known
    · rw [accepts_table_iff slot_export regular_export]
      refine forall₂_congr fun f mem => export_accepts_iff fun named below same => ?_
      exact simple rfl f.1 named below (same ▸ mem)
    · rw [accepts_table_iff slot_batch regular_batch]
      exact forall₂_congr fun f mem => batch_accepts_iff (sound.entries f mem)
    · rw [accepts_table_iff slot_decode regular_decode]
      exact forall₂_congr fun f mem => decode_accepts_iff
  · exact iff_of_false (fun accepts => known accepts.1) fun valid => known valid.1

theorem exists_ofDocument_iff (sound : (Value.table entries).Sound) (tabular : Tabular entries) :
    (∃ s, ofDocument entries = .ok s) ↔ Valid entries := by
  rw [ofDocument, regular_document.exists_ofEntries_iff]
  exact forall₂_congr fun e mem => document_accepts_iff (sound.entries e mem) (tabular e mem)

/-! ## Contents -/

theorem distinct_fieldsOf (sound : (Value.table entries).Sound) :
    ((fieldsOf entries name).map Prod.fst).Nodup := by
  unfold fieldsOf
  split
  · next fields found => exact (sound.entries _ (Toml.mem_of_lookup found)).distinct
  · exact List.nodup_nil

theorem holds_of_ofDocument (sound : (Value.table entries).Sound) (tabular : Tabular entries)
    (done : ofDocument entries = .ok s) : Holds entries s := by
  have exporting := ofEntries_fieldsOf slot_export rfl (by decide) sound.distinct tabular done
  have batch := ofEntries_fieldsOf slot_batch rfl (by decide) sound.distinct tabular done
  have decoding := ofEntries_fieldsOf slot_decode rfl (by decide) sound.distinct tabular done
  have simple (field : String) (named : field ∈ ["format", "encoding"]) (v : Value)
      (mem : (field, v) ∈ fieldsOf entries "export") : ∀ below, v ≠ .table below := by
    rintro below rfl
    unfold fieldsOf at mem
    split at mem
    · next fields found =>
      obtain ⟨_, ⟨⟩, simple⟩ := tabular _ (Toml.mem_of_lookup found) List.mem_cons_self
      exact simple rfl field named below mem
    · cases mem
  exact
    { format := by
        refine slot_format.lookup_getD (fun f => .string f.name) (fun v f mem read => ?_)
          (distinct_fieldsOf sound) exporting
        have plain := simple "format" (by decide) v mem
        obtain ⟨name, rfl, found⟩ := (toName_eq_ok_iff plain).mp read
        rw [lookup_formatNames.mp found]
      encoding := by
        refine slot_encoding.lookup_getD (fun e => .string e.name) (fun v e mem read => ?_)
          (distinct_fieldsOf sound) exporting
        have plain := simple "encoding" (by decide) v mem
        obtain ⟨name, rfl, found⟩ := (toName_eq_ok_iff plain).mp read
        rw [lookup_encodingNames.mp found]
      workers := slot_workers.lookup_getD _ (fun _ _ _ => toNat_eq_ok_iff.mp)
        (distinct_fieldsOf sound) batch
      failFast := slot_failFast.lookup_getD _ (fun _ _ _ => toBool_eq_ok_iff.mp)
        (distinct_fieldsOf sound) batch
      verifyRoundTrip := slot_verifyRoundTrip.lookup_getD _ (fun _ _ _ => toBool_eq_ok_iff.mp)
        (distinct_fieldsOf sound) batch
      strictArity := slot_strictArity.lookup_getD _ (fun _ _ _ => toBool_eq_ok_iff.mp)
        (distinct_fieldsOf sound) decoding }

/-- What a document says decides all settings. -/
theorem Holds.unique {s' : Settings} (holds : Holds entries s) (holds' : Holds entries' s')
    (same : ∀ name field, find? entries' name field = find? entries name field) : s = s' := by
  obtain ⟨⟨format, encoding⟩, ⟨workers, failFast, verifyRoundTrip⟩, ⟨strictArity⟩⟩ := s
  obtain ⟨⟨format', encoding'⟩, ⟨workers', failFast', verifyRoundTrip'⟩, ⟨strictArity'⟩⟩ := s'
  obtain ⟨h₁, h₂, h₃, h₄, h₅, h₆⟩ := holds
  obtain ⟨h₁', h₂', h₃', h₄', h₅', h₆'⟩ := holds'
  simp only [same] at h₁' h₂' h₃' h₄' h₅' h₆'
  obtain ⟨⟩ := h₃.symm.trans h₃'
  obtain ⟨⟩ := h₄.symm.trans h₄'
  obtain ⟨⟩ := h₅.symm.trans h₅'
  obtain ⟨⟩ := h₆.symm.trans h₆'
  have named := lookup_formatNames.mpr (Value.string.inj (h₁.symm.trans h₁'))
  have named' := lookup_encodingNames.mpr (Value.string.inj (h₂.symm.trans h₂'))
  rw [lookup_formatNames.mpr rfl] at named
  rw [lookup_encodingNames.mpr rfl] at named'
  obtain ⟨⟩ := named
  obtain ⟨⟩ := named'
  rfl

/-! ## Order -/

theorem Reordered.symm (r : Reordered entries entries') : Reordered entries' entries := by
  induction r with
  | sections perm => exact .sections perm.symm
  | fields perm => exact .fields perm.symm
  | trans _ _ ih ih' => exact .trans ih' ih

theorem Reordered.keys_perm (r : Reordered entries entries') :
    (entries.map Prod.fst).Perm (entries'.map Prod.fst) := by
  induction r with
  | sections perm => exact perm.map Prod.fst
  | fields perm => simp
  | trans _ _ ih ih' => exact ih.trans ih'

/-- What does not depend on the order below a key holds of all entries still. -/
theorem Reordered.forall_mem {P : String × Value → Prop} (r : Reordered entries entries')
    (keeps : ∀ {name : String} {fs fs' : List (String × Value)}, fs.Perm fs' →
      P (name, .table fs) → P (name, .table fs')) (all : ∀ e ∈ entries, P e) :
    ∀ e ∈ entries', P e := by
  induction r with
  | sections perm => exact fun e mem => all e (perm.mem_iff.mpr mem)
  | fields perm =>
    rw [List.forall_mem_append, List.forall_mem_cons] at all ⊢
    exact ⟨all.1, keeps perm all.2.1, all.2.2⟩
  | trans _ _ ih ih' => exact ih' (ih all)

theorem Reordered.sound (r : Reordered entries entries') (sound : (Value.table entries).Sound) :
    (Value.table entries').Sound := by
  refine .table (r.keys_perm.nodup_iff.mp sound.distinct) (r.forall_mem ?_ sound.entries)
  intro name fs fs' perm below
  exact .table ((perm.map Prod.fst).nodup_iff.mp below.distinct)
    fun f mem => below.entries f (perm.mem_iff.mpr mem)

theorem Reordered.tabular (r : Reordered entries entries') (tabular : Tabular entries) :
    Tabular entries' := by
  refine r.forall_mem ?_ tabular
  intro name fs fs' perm table known
  obtain ⟨_, ⟨⟩, simple⟩ := table known
  exact ⟨fs', rfl, fun here field named below mem =>
    simple here field named below (perm.mem_iff.mpr mem)⟩

theorem Reordered.valid (r : Reordered entries entries') (valid : Valid entries) :
    Valid entries' := by
  refine r.forall_mem ?_ valid
  rintro name fs fs' perm ⟨known, admissible⟩
  refine ⟨known, ?_⟩
  rintro _ ⟨⟩ f mem
  exact admissible fs rfl f (perm.mem_iff.mpr mem)

theorem Reordered.fieldsOf_perm (r : Reordered entries entries')
    (distinct : (entries.map Prod.fst).Nodup) :
    (fieldsOf entries name).Perm (fieldsOf entries' name) := by
  induction r with
  | sections perm =>
    unfold fieldsOf
    rw [Toml.lookup_perm distinct perm]
  | @fields before after fs fs' key perm =>
    unfold fieldsOf
    rw [List.lookup_append, List.lookup_append]
    cases before.lookup name with
    | some v => exact .refl _
    | none =>
      by_cases same : name = key
      · subst same
        simpa using perm
      · simp [List.lookup_cons, beq_false_of_ne same]
  | trans first _ ih ih' => exact (ih distinct).trans (ih' (first.keys_perm.nodup_iff.mp distinct))

theorem Reordered.find?_eq (r : Reordered entries entries')
    (sound : (Value.table entries).Sound) (name field : String) :
    find? entries' name field = find? entries name field :=
  Toml.lookup_perm (distinct_fieldsOf sound) (r.fieldsOf_perm sound.distinct) field

theorem Reordered.ofDocument_eq_ok (r : Reordered entries entries')
    (sound : (Value.table entries).Sound) (tabular : Tabular entries)
    (done : ofDocument entries = .ok s) : ofDocument entries' = .ok s := by
  have valid := (exists_ofDocument_iff sound tabular).mp ⟨s, done⟩
  obtain ⟨s', done'⟩ :=
    (exists_ofDocument_iff (r.sound sound) (r.tabular tabular)).mpr (r.valid valid)
  have holds := holds_of_ofDocument sound tabular done
  have holds' := holds_of_ofDocument (r.sound sound) (r.tabular tabular) done'
  rw [done', holds.unique holds' (r.find?_eq sound)]

/-- Which texts hold settings, and which settings they hold: a text whose sections are tables is
accepted exactly if it is valid; the settings are what it says, with the defaults for the rest; and
the same entries in another order, from whatever text, stand for the same settings. -/
theorem ofToml_ok_iff {text : String} {entries : List (String × Value)}
    (parsed : Toml.document? text = some entries) (tabular : Tabular entries) :
    ((∃ s, ofToml text = .ok s) ↔ Valid entries) ∧
      (∀ s, ofToml text = .ok s → Holds entries s) ∧
      ∀ entries', Reordered entries entries' → ∀ s,
        (ofDocument entries' = .ok s ↔ ofToml text = .ok s) ∧
        ∀ text', Toml.document? text' = some entries' →
          (ofToml text' = .ok s ↔ ofToml text = .ok s) := by
  have sound := Toml.document?_sound parsed
  have read {text : String} {entries : List (String × Value)}
      (parsed : Toml.document? text = some entries) : ofToml text = ofDocument entries := by
    rw [ofToml, parsed]
  rw [read parsed]
  refine ⟨exists_ofDocument_iff sound tabular,
    fun s => holds_of_ofDocument sound tabular, fun entries' r s => ?_⟩
  have same : ofDocument entries' = .ok s ↔ ofDocument entries = .ok s :=
    ⟨r.symm.ofDocument_eq_ok (r.sound sound) (r.tabular tabular),
      r.ofDocument_eq_ok sound tabular⟩
  refine ⟨same, fun text' parsed' => ?_⟩
  rw [read parsed']
  exact same

def dglFields : List (String × Value) :=
  [("format", .string "dgl"), ("encoding", .string "bincode")]

def eightFields : List (String × Value) := [("fail_fast", .boolean true), ("workers", .integer 8)]

/-- Two sections with two fields each. -/
def exportFirst : String :=
  "export.format = \"dgl\"\nexport.encoding = \"bincode\"\n[batch]\nfail_fast = true\nworkers = 8"

/-- The sections and their fields the other way round, each section below a header. -/
def batchFirst : String :=
  "[batch]\nworkers = 8\nfail_fast = true\n[export]\nencoding = \"bincode\"\nformat = \"dgl\"\n"

theorem document?_exportFirst : Toml.document? exportFirst =
    some [("export", .table dglFields), ("batch", .table eightFields)] := by
  cbv

theorem document?_batchFirst : Toml.document? batchFirst =
    some [("batch", .table eightFields.reverse), ("export", .table dglFields.reverse)] := by
  cbv

theorem reordered_batchFirst :
    Reordered [("export", .table dglFields), ("batch", .table eightFields)]
      [("batch", .table eightFields.reverse), ("export", .table dglFields.reverse)] :=
  .trans (.sections (.swap _ _ [])) <|
    .trans (@Reordered.fields [] _ _ _ "batch" (List.reverse_perm eightFields).symm)
      (@Reordered.fields [_] [] _ _ "export" (List.reverse_perm dglFields).symm)

theorem ofToml_ok_iff_batchFirst :
    Tabular [("export", .table dglFields), ("batch", .table eightFields)] ∧
      Valid [("export", .table dglFields), ("batch", .table eightFields)] ∧
      ofToml batchFirst = .ok
        { exporting := { format := .dgl, encoding := .bincode }
          batch := { workers := 8, failFast := true } } := by
  have tabular : Tabular [("export", .table dglFields), ("batch", .table eightFields)] := by
    simp [Tabular, TabularEntry, dglFields, eightFields]
  obtain ⟨accepted, -, order⟩ := ofToml_ok_iff document?_exportFirst tabular
  have done : ofToml exportFirst = .ok
      { exporting := { format := .dgl, encoding := .bincode }
        batch := { workers := 8, failFast := true } } := by
    rw [ofToml, document?_exportFirst]
    rfl
  refine ⟨tabular, accepted.mp ⟨_, done⟩, ?_⟩
  exact ((order _ reordered_batchFirst _).2 batchFirst document?_batchFirst).mpr done

end FolGraph.Settings
