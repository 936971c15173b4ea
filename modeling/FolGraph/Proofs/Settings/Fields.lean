import FolGraph.Proofs.Settings.Section
import FolGraph.Proofs.Toml.Sound

/-!
# The fields of the settings

Each field has a place in its section, and each section one in the settings. Which values a field
accepts is told by `Admissible`: numbers and booleans of their type, and names exactly as they are
written (`export_accepts_iff`, `batch_accepts_iff`, `decode_accepts_iff`).
-/

namespace FolGraph.Settings

open Toml (Value)

variable {name : String} {v : Value}

/-- The values that the fields of the sections may have. -/
inductive Admissible : String → String → Value → Prop
  | format {name : String} (known : name ∈ ["pyg", "dgl", "dot"]) :
      Admissible "export" "format" (.string name)
  | encoding {name : String} (known : name ∈ ["json", "bincode"]) :
      Admissible "export" "encoding" (.string name)
  | workers {i : Int} (low : 0 ≤ i) (high : i < Int.pow 2 63) :
      Admissible "batch" "workers" (.integer i)
  | failFast (b : Bool) : Admissible "batch" "fail_fast" (.boolean b)
  | verifyRoundTrip (b : Bool) : Admissible "batch" "verify_round_trip" (.boolean b)
  | strictArity (b : Bool) : Admissible "decode" "strict_arity" (.boolean b)

/-! ## Values -/

theorem toBool_eq_ok_iff {b : Bool} : v.toBool = .ok b ↔ v = .boolean b := by
  cases v <;> simp [Value.toBool]

theorem toNat_eq_ok_iff {n : Nat} : v.toNat = .ok n ↔ v = .integer n := by
  cases v with
  | integer i =>
    simp only [Value.toNat, Value.integer.injEq]
    split
    · rw [Except.ok.injEq]
      omega
    · simp only [reduceCtorEq, false_iff]
      omega
  | _ => simp [Value.toNat]

theorem toName_eq_ok_iff {α : Type} {names : List (String × α)} {a : α}
    (simple : ∀ below, v ≠ .table below) :
    v.toName names = .ok a ↔ ∃ name, v = .string name ∧ names.lookup name = some a := by
  cases v with
  | string name =>
    simp only [Value.toName, Value.toName.look, Value.string.injEq, exists_eq_left']
    split <;> simp [*]
  | table below => exact absurd rfl (simple below)
  | _ => simp [Value.toName]

theorem lookup_formatNames {format : Export.Format} :
    formatNames.lookup name = some format ↔ format.name = name := by
  rw [Toml.lookup_eq_some_iff (by decide), formatNames]
  cases format <;> simp [Export.Format.name, eq_comm]

theorem lookup_encodingNames {encoding : Export.Encoding} :
    encodingNames.lookup name = some encoding ↔ encoding.name = name := by
  rw [Toml.lookup_eq_some_iff (by decide), encodingNames]
  cases encoding <;> simp [Export.Encoding.name, eq_comm]

/-! ## Places of the fields -/

/-- Setting one field leaves the other as it was; so it is in each section. -/
theorem export_keeps {a a' : ExportSettings} {other : String}
    (declared : other ∈ exportSection.fields) (done : exportSection.set a other v = .ok a') :
    (other ≠ "format" → a'.format = a.format) ∧
      (other ≠ "encoding" → a'.encoding = a.encoding) := by
  obtain rfl | rfl := by simpa [exportSection] using declared
  all_goals
    obtain ⟨_, -, ⟨⟩⟩ := bind_eq_ok.mp done
    simp

theorem slot_format : exportSection.Slot "format" (Value.toName formatNames)
    ExportSettings.format (fun a f => { a with format := f }) where
  declared := by decide
  set_eq _ _ := rfl
  get_put _ _ := rfl
  keeps _ declared differs _ _ _ done := (export_keeps declared done).1 differs

theorem slot_encoding : exportSection.Slot "encoding" (Value.toName encodingNames)
    ExportSettings.encoding (fun a e => { a with encoding := e }) where
  declared := by decide
  set_eq _ _ := rfl
  get_put _ _ := rfl
  keeps _ declared differs _ _ _ done := (export_keeps declared done).2 differs

theorem batch_keeps {a a' : BatchSettings} {other : String}
    (declared : other ∈ batchSection.fields) (done : batchSection.set a other v = .ok a') :
    (other ≠ "workers" → a'.workers = a.workers) ∧
      (other ≠ "fail_fast" → a'.failFast = a.failFast) ∧
      (other ≠ "verify_round_trip" → a'.verifyRoundTrip = a.verifyRoundTrip) := by
  obtain rfl | rfl | rfl := by simpa [batchSection] using declared
  all_goals
    obtain ⟨_, -, ⟨⟩⟩ := bind_eq_ok.mp done
    simp

theorem slot_workers : batchSection.Slot "workers" Value.toNat
    BatchSettings.workers (fun a n => { a with workers := n }) where
  declared := by decide
  set_eq _ _ := rfl
  get_put _ _ := rfl
  keeps _ declared differs _ _ _ done := (batch_keeps declared done).1 differs

theorem slot_failFast : batchSection.Slot "fail_fast" Value.toBool
    BatchSettings.failFast (fun a b => { a with failFast := b }) where
  declared := by decide
  set_eq _ _ := rfl
  get_put _ _ := rfl
  keeps _ declared differs _ _ _ done := (batch_keeps declared done).2.1 differs

theorem slot_verifyRoundTrip : batchSection.Slot "verify_round_trip" Value.toBool
    BatchSettings.verifyRoundTrip (fun a b => { a with verifyRoundTrip := b }) where
  declared := by decide
  set_eq _ _ := rfl
  get_put _ _ := rfl
  keeps _ declared differs _ _ _ done := (batch_keeps declared done).2.2 differs

theorem slot_strictArity : decodeSection.Slot "strict_arity" Value.toBool
    DecodeSettings.strictArity (fun a b => { a with strictArity := b }) where
  declared := by decide
  set_eq _ _ := rfl
  get_put _ _ := rfl
  keeps _ declared differs := absurd (List.mem_singleton.mp declared) differs

theorem document_keeps {a a' : Settings} {other : String}
    (declared : other ∈ documentSection.fields) (done : documentSection.set a other v = .ok a') :
    (other ≠ "export" → a'.exporting = a.exporting) ∧
      (other ≠ "batch" → a'.batch = a.batch) ∧
      (other ≠ "decode" → a'.decoding = a.decoding) := by
  obtain rfl | rfl | rfl := by simpa [documentSection] using declared
  all_goals
    obtain ⟨_, -, ⟨⟩⟩ := bind_eq_ok.mp done
    simp

theorem slot_export : documentSection.Slot "export" exportSection.ofValue
    Settings.exporting (fun s a => { s with exporting := a }) where
  declared := by decide
  set_eq _ _ := rfl
  get_put _ _ := rfl
  keeps _ declared differs _ _ _ done := (document_keeps declared done).1 differs

theorem slot_batch : documentSection.Slot "batch" batchSection.ofValue
    Settings.batch (fun s a => { s with batch := a }) where
  declared := by decide
  set_eq _ _ := rfl
  get_put _ _ := rfl
  keeps _ declared differs _ _ _ done := (document_keeps declared done).2.1 differs

theorem slot_decode : documentSection.Slot "decode" decodeSection.ofValue
    Settings.decoding (fun s a => { s with decoding := a }) where
  declared := by decide
  set_eq _ _ := rfl
  get_put _ _ := rfl
  keeps _ declared differs _ _ _ done := (document_keeps declared done).2.2 differs

theorem regular_export : exportSection.Regular := by
  intro field declared
  obtain rfl | rfl := by simpa [exportSection] using declared
  · exact ⟨_, _, _, _, slot_format⟩
  · exact ⟨_, _, _, _, slot_encoding⟩

theorem regular_batch : batchSection.Regular := by
  intro field declared
  obtain rfl | rfl | rfl := by simpa [batchSection] using declared
  · exact ⟨_, _, _, _, slot_workers⟩
  · exact ⟨_, _, _, _, slot_failFast⟩
  · exact ⟨_, _, _, _, slot_verifyRoundTrip⟩

theorem regular_decode : decodeSection.Regular := by
  intro field declared
  obtain rfl := List.mem_singleton.mp declared
  exact ⟨_, _, _, _, slot_strictArity⟩

theorem regular_document : documentSection.Regular := by
  intro field declared
  obtain rfl | rfl | rfl := by simpa [documentSection] using declared
  · exact ⟨_, _, _, _, slot_export⟩
  · exact ⟨_, _, _, _, slot_batch⟩
  · exact ⟨_, _, _, _, slot_decode⟩

/-! ## Acceptance -/

theorem export_accepts_iff {field : String}
    (simple : field ∈ ["format", "encoding"] → ∀ below, v ≠ .table below) :
    exportSection.Accepts field v ↔ Admissible "export" field v := by
  constructor
  · intro accepts
    have plain := simple accepts.1
    obtain rfl | rfl := by simpa [exportSection] using accepts.1
    · obtain ⟨format, read⟩ := slot_format.accepts_iff.mp accepts
      obtain ⟨_, rfl, found⟩ := (toName_eq_ok_iff plain).mp read
      obtain rfl := lookup_formatNames.mp found
      exact .format (by cases format <;> decide)
    · obtain ⟨encoding, read⟩ := slot_encoding.accepts_iff.mp accepts
      obtain ⟨_, rfl, found⟩ := (toName_eq_ok_iff plain).mp read
      obtain rfl := lookup_encodingNames.mp found
      exact .encoding (by cases encoding <;> decide)
  · intro admissible
    generalize here : "export" = name at admissible
    cases admissible with
    | format known =>
      refine slot_format.accepts_iff.mpr ?_
      obtain rfl | rfl | rfl := by simpa using known
      · exact ⟨.pyg, rfl⟩
      · exact ⟨.dgl, rfl⟩
      · exact ⟨.dot, rfl⟩
    | encoding known =>
      refine slot_encoding.accepts_iff.mpr ?_
      obtain rfl | rfl := by simpa using known
      · exact ⟨.json, rfl⟩
      · exact ⟨.bincode, rfl⟩
    | _ => exact absurd here (by decide)

theorem batch_accepts_iff {field : String} (sound : v.Sound) :
    batchSection.Accepts field v ↔ Admissible "batch" field v := by
  constructor
  · intro accepts
    obtain rfl | rfl | rfl := by simpa [batchSection] using accepts.1
    · obtain ⟨n, read⟩ := slot_workers.accepts_iff.mp accepts
      obtain rfl := toNat_eq_ok_iff.mp read
      cases sound with
      | integer low high => exact .workers (Int.natCast_nonneg n) high
    · obtain ⟨b, read⟩ := slot_failFast.accepts_iff.mp accepts
      obtain rfl := toBool_eq_ok_iff.mp read
      exact .failFast b
    · obtain ⟨b, read⟩ := slot_verifyRoundTrip.accepts_iff.mp accepts
      obtain rfl := toBool_eq_ok_iff.mp read
      exact .verifyRoundTrip b
  · intro admissible
    generalize here : "batch" = name at admissible
    cases admissible with
    | workers low high =>
      obtain ⟨n, rfl⟩ := Int.eq_ofNat_of_zero_le low
      exact slot_workers.accepts_iff.mpr ⟨n, toNat_eq_ok_iff.mpr rfl⟩
    | failFast b => exact slot_failFast.accepts_iff.mpr ⟨b, rfl⟩
    | verifyRoundTrip b => exact slot_verifyRoundTrip.accepts_iff.mpr ⟨b, rfl⟩
    | _ => exact absurd here (by decide)

theorem decode_accepts_iff {field : String} :
    decodeSection.Accepts field v ↔ Admissible "decode" field v := by
  constructor
  · intro accepts
    obtain rfl := List.mem_singleton.mp accepts.1
    obtain ⟨b, read⟩ := slot_strictArity.accepts_iff.mp accepts
    obtain rfl := toBool_eq_ok_iff.mp read
    exact .strictArity b
  · intro admissible
    generalize here : "decode" = name at admissible
    cases admissible with
    | strictArity b => exact slot_strictArity.accepts_iff.mpr ⟨b, rfl⟩
    | _ => exact absurd here (by decide)

end FolGraph.Settings
