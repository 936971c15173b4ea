import FolGraph.Proofs.Batch.Accounting

/-!
# Runs that fail fast

A run that fails fast does what a tolerant run does up to the first failure, and then nothing more.
Both convert formulas one after the other (`Converts`) until one fails; `converts_or_fails` says
that a list is converted to its end or up to such a formula. From there on the tolerant run changes
only outputs of later formulas (`puts_runTolerant`), so those that were written before the failure
are the same in the end unless they go to the same files (`exists_stopsAt`).
-/

namespace FolGraph

namespace Batch

/-- The same run, going on after failures. -/
def tolerant (b : Batch) : Batch := { b with failFast := false }

/-- The same run, ending at the first failure. -/
def failingFast (b : Batch) : Batch := { b with failFast := true }

/-- Formulas are converted one after the other: each is loaded, converted and written before the
next, and none of them fails. The first of them has the given index. -/
inductive Converts (b : Batch) : Files → Nat → List String → Files → Prop
  | nil (fs : Files) (index : Nat) : Converts b fs index [] fs
  | cons {fs fs' files : Files} {index : Nat} {path : String} {paths : List String} {f : Formula}
      {contents : ByteArray} (load : fs.loadFormula path = .ok f)
      (convert : b.conversion.convert f = .ok contents)
      (write : fs.write (b.outputPath index) contents = .ok fs')
      (rest : Converts b fs' (index + 1) paths files) : Converts b fs index (path :: paths) files

/-- The places of the outputs with the indices from one on and below another. -/
def outputsBetween (b : Batch) (fs : Files) (first last : Nat) : Set Location :=
  fun l => ∃ i, first ≤ i ∧ i < last ∧ fs.place (b.outputPath i) = .ok l

/-- What a tolerant run comes to when it goes on after its first failure. -/
def goOn (b : Batch) (stopped : Files) (failure : FailedFormula) (after : List String) :
    Files × Report :=
  b.runTolerant stopped ⟨failure.index, [failure]⟩ (failure.index + 1) after

/-- A run that fails fast has stopped at a failure, and a tolerant run from the same files has ended
with a report. The output directory is there in `fs₀`. -/
structure StopsAt (b : Batch) (fs fs₀ : Files) (paths : List String) (failure : FailedFormula)
    (stopped files : Files) (report : Report) : Prop where
  named : paths[failure.index]? = some failure.path
  fails : b.Fails stopped failure.index failure.path
  /-- It is the failure with the smallest index that the tolerant run reports. -/
  first : ∃ later, report.failed = failure :: later ∧ ∀ f ∈ later, failure.index < f.index
  /-- The files are those of the tolerant run when it comes to that formula. -/
  before : b.tolerant.run fs (paths.take failure.index) = (stopped, .ok ⟨failure.index, []⟩)
  /-- The outputs before the failure are written, and they are those that the tolerant run leaves
  unless outputs of later formulas go to the same files. -/
  written : ∀ i < failure.index, ∃ contents, stopped.read (b.outputPath i) = .ok contents ∧
    ((∀ j < paths.length, failure.index < j →
        ¬fs₀.SameFile (b.outputPath i) (b.outputPath j)) →
      files.read (b.outputPath i) = .ok contents)
  /-- Where there are no links they are those that the tolerant run leaves. -/
  remaining : fs.Unlinked → ∀ i < failure.index,
    files.read (b.outputPath i) = stopped.read (b.outputPath i)
  /-- Nothing is written but these outputs. -/
  frame : ∀ l, (∀ i < failure.index, ∀ m, fs₀.place (b.outputPath i) = .ok m → ¬fs₀.Shares l m) →
    stopped.find? l = fs₀.find? l

section
variable {b : Batch} {fs fs' fs₀ files stopped : Files} {index first last k : Nat} {path : String}
  {paths before after : List String} {report : Report} {e : FormulaError}

/-! ## One formula -/

theorem convertFile_eq (b : Batch) (fs : Files) (index : Nat) (path : String) :
    b.convertFile fs index path =
      (b.alone fs index path).map fun (l, contents) => fs.putFile l contents := by
  rw [convertFile, alone]
  cases b.produce fs path with
  | error e => rfl
  | ok contents =>
    simp only [bind, Except.bind, Files.write_eq]
    cases fs.writePlace (b.outputPath index) <;> rfl

theorem convertFile_eq_ok : b.convertFile fs index path = .ok fs' ↔
    ∃ f contents, fs.loadFormula path = .ok f ∧ b.conversion.convert f = .ok contents ∧
      fs.write (b.outputPath index) contents = .ok fs' := by
  rw [convertFile, bind_eq_ok]
  simp only [produce_eq_ok]
  constructor
  · rintro ⟨contents, ⟨f, load, convert⟩, written⟩
    refine ⟨f, contents, load, convert, ?_⟩
    cases write : fs.write (b.outputPath index) contents with
    | error e => simp [write] at written
    | ok files => simpa [write] using written
  · rintro ⟨f, contents, load, convert, write⟩
    exact ⟨contents, ⟨f, load, convert⟩, by rw [write]⟩

theorem fails_of_convertFile (failed : b.convertFile fs index path = .error e) :
    b.Fails fs index path := by
  rw [convertFile_eq] at failed
  apply fails_iff.mpr
  cases alone : b.alone fs index path with
  | error e' => exact ⟨e', rfl⟩
  | ok output =>
    rw [alone] at failed
    cases failed

/-- A formula that is converted changes the place of its output, where there is a file then. -/
theorem puts_convertFile (converted : b.convertFile fs index path = .ok fs') :
    Files.Puts (b.outputsBetween fs index (index + 1)) fs fs' ∧
      ∃ l contents, fs.place (b.outputPath index) = .ok l ∧
        fs'.find? l = some (.file contents) := by
  rw [convertFile_eq] at converted
  cases alone : b.alone fs index path with
  | error e =>
    rw [alone] at converted
    cases converted
  | ok output =>
    obtain ⟨l, contents⟩ := output
    rw [alone] at converted
    obtain rfl := Except.ok.inj converted
    obtain ⟨placed, takes⟩ := Files.place_of_writePlace (alone_eq_ok.mp alone).2
    refine ⟨(Files.puts_putFile takes contents).mono ?_, l, contents, placed, ?_⟩
    · rintro _ rfl
      exact ⟨index, Nat.le_refl _, Nat.lt_succ_self _, placed⟩
    · rw [Files.find?_putFile fs takes.ne_nil, if_pos (.refl fs l)]

/-! ## Formulas one after the other -/

theorem outputsBetween_subset {first' last' : Nat} (low : first ≤ first') (high : last' ≤ last) :
    b.outputsBetween fs first' last' ⊆ b.outputsBetween fs first last :=
  fun _ ⟨i, lower, upper, placed⟩ =>
    ⟨i, Nat.le_trans low lower, Nat.lt_of_lt_of_le upper high, placed⟩

/-- Outputs keep their places when files are put anywhere. -/
theorem outputsBetween_eq {places : Set Location} (puts : Files.Puts places fs fs')
    (first last : Nat) : b.outputsBetween fs' first last = b.outputsBetween fs first last := by
  ext l
  exact exists_congr fun i =>
    and_congr_right fun _ => and_congr_right fun _ => puts.place_eq_ok_iff

/-- A tolerant run changes the places of its own outputs. -/
theorem puts_runTolerant (b : Batch) (fs : Files) (report : Report) (index : Nat)
    (paths : List String) : Files.Puts (b.outputsBetween fs index (index + paths.length)) fs
      (b.runTolerant fs report index paths).1 := by
  induction paths generalizing fs report index with
  | nil => exact .refl _ fs
  | cons path paths ih =>
    have shift : index + (path :: paths).length = index + 1 + paths.length := by
      rw [List.length_cons]
      omega
    rw [runTolerant, shift]
    cases converted : b.convertFile fs index path with
    | error e =>
      refine (ih fs _ (index + 1)).mono ?_
      exact outputsBetween_subset (Nat.le_succ index) (Nat.le_refl _)
    | ok fs' =>
      have here := (puts_convertFile converted).1
      have rest := ih fs' { report with converted := report.converted + 1 } (index + 1)
      rw [outputsBetween_eq here] at rest
      refine (here.trans rest).mono (Set.union_subset ?_ ?_)
      · exact outputsBetween_subset (Nat.le_refl _) (Nat.le_add_right _ _)
      · exact outputsBetween_subset (Nat.le_succ index) (Nat.le_refl _)

/-- The failures of a tolerant run are added in the order of their indices. -/
theorem exists_failed_runTolerant (b : Batch) (fs : Files) (report : Report) (index : Nat)
    (paths : List String) : ∃ later,
      (b.runTolerant fs report index paths).2.failed = report.failed ++ later ∧
        ∀ f ∈ later, index ≤ f.index := by
  induction paths generalizing fs report index with
  | nil => exact ⟨[], by rw [runTolerant, List.append_nil], by simp⟩
  | cons path paths ih =>
    rw [runTolerant]
    cases b.convertFile fs index path with
    | ok fs' =>
      obtain ⟨later, failed, above⟩ := ih fs' { report with converted := report.converted + 1 }
        (index + 1)
      exact ⟨later, failed, fun f mem => Nat.le_of_succ_le (above f mem)⟩
    | error cause =>
      obtain ⟨later, failed, above⟩ := ih fs
        { report with failed := report.failed ++ [⟨index, path, cause⟩] } (index + 1)
      refine ⟨⟨index, path, cause⟩ :: later, by rw [failed, List.append_assoc]; rfl, ?_⟩
      intro f mem
      rcases List.mem_cons.mp mem with rfl | mem
      · exact Nat.le_refl _
      · exact Nat.le_of_succ_le (above f mem)

/-- Either all formulas are converted, or there is a first one that fails. -/
theorem converts_or_fails (b : Batch) (fs : Files) (index : Nat) (paths : List String) :
    (∃ files, b.Converts fs index paths files) ∨
      ∃ before path after files cause, paths = before ++ path :: after ∧
        b.Converts fs index before files ∧
        b.convertFile files (index + before.length) path = .error cause := by
  induction paths generalizing fs index with
  | nil => exact Or.inl ⟨fs, .nil fs index⟩
  | cons path paths ih =>
    cases converted : b.convertFile fs index path with
    | error cause => exact Or.inr ⟨[], path, paths, fs, cause, rfl, .nil fs index, converted⟩
    | ok fs' =>
      obtain ⟨f, contents, load, convert, write⟩ := convertFile_eq_ok.mp converted
      rcases ih fs' (index + 1) with ⟨files, rest⟩ | ⟨before, q, after, files, cause, rfl, rest, e⟩
      · exact Or.inl ⟨files, .cons load convert write rest⟩
      · refine Or.inr ⟨path :: before, q, after, files, cause, rfl,
          .cons load convert write rest, ?_⟩
        rwa [List.length_cons, Nat.add_comm before.length, ← Nat.add_assoc]

/-- What a run does at a failure plays no part as long as there is none. -/
theorem Converts.withMode (converts : b.Converts fs index paths files) (mode : Bool) :
    Batch.Converts { b with failFast := mode } fs index paths files := by
  induction converts with
  | nil fs index => exact .nil fs index
  | cons load convert write _ ih => exact .cons load convert write ih

/-- A tolerant run gets past formulas that are converted, and counts them. -/
theorem Converts.runTolerant_append (converts : b.Converts fs index before files)
    (report : Report) (after : List String) :
    b.runTolerant fs report index (before ++ after) =
      b.runTolerant files { report with converted := report.converted + before.length }
        (index + before.length) after := by
  induction converts generalizing report with
  | nil => rfl
  | @cons fs fs' files index path paths f contents load convert write _ ih =>
    have converted := convertFile_eq_ok.mpr ⟨f, contents, load, convert, write⟩
    rw [List.cons_append, runTolerant, converted]
    simp only [ih, List.length_cons, Nat.add_assoc, Nat.add_comm 1]

/-- So does a run that fails fast. -/
theorem Converts.runFailFast_append (converts : b.Converts fs index before files)
    (after : List String) : b.runFailFast fs index (before ++ after) =
      b.runFailFast files (index + before.length) after := by
  induction converts with
  | nil => rfl
  | @cons fs fs' files index path paths f contents load convert write _ ih =>
    have converted := convertFile_eq_ok.mpr ⟨f, contents, load, convert, write⟩
    rw [List.cons_append, runFailFast, converted]
    simp only [ih, List.length_cons, Nat.add_assoc, Nat.add_comm 1]

theorem Converts.runTolerant_eq (converts : b.Converts fs index paths files) (report : Report) :
    b.runTolerant fs report index paths =
      (files, { report with converted := report.converted + paths.length }) := by
  have whole := converts.runTolerant_append report []
  rwa [List.append_nil, runTolerant] at whole

/-- What has been converted lies at its place, and nothing has changed anywhere else. -/
theorem Converts.puts (converts : b.Converts fs index paths files) :
    Files.Puts (b.outputsBetween fs index (index + paths.length)) fs files := by
  have puts := puts_runTolerant b fs .empty index paths
  rwa [converts.runTolerant_eq] at puts

theorem Converts.exists_output (converts : b.Converts fs index paths files) (low : index ≤ k)
    (high : k < index + paths.length) : ∃ l contents, fs.place (b.outputPath k) = .ok l ∧
      files.find? l = some (.file contents) := by
  induction converts with
  | nil =>
    rw [List.length_nil] at high
    omega
  | @cons fs fs' files index path paths f contents load convert write rest ih =>
    have converted := convertFile_eq_ok.mpr ⟨f, contents, load, convert, write⟩
    obtain ⟨here, l, output, placed, there⟩ := puts_convertFile converted
    rcases Nat.eq_or_lt_of_le low with rfl | later
    · obtain ⟨output, there⟩ := rest.puts.exists_file there
      exact ⟨l, output, placed, there⟩
    · obtain ⟨l, output, placed, there⟩ := ih later (by rw [List.length_cons] at high; omega)
      exact ⟨l, output, here.place_eq_ok_iff.mp placed, there⟩

/-! ## Runs of both kinds -/

/-- A run without an output directory ends before the first formula. -/
theorem run_of_noDirectory {cause : FileError}
    (failed : fs.createDirectories b.directory = (files, .error cause)) (paths : List String) :
    b.run fs paths = (files, .error (.noDirectory b.directory cause)) := by
  rw [run, failed]

theorem exists_created_of_run (ran : b.run fs paths = (files, .ok report)) :
    ∃ fs₀, fs.createDirectory b.directory = .ok fs₀ := by
  rcases created : fs.createDirectories b.directory with ⟨fs₀, cause | _⟩
  · rw [run_of_noDirectory created] at ran
    cases ran
  · exact ⟨fs₀, Files.createDirectory_eq_ok.mpr created⟩

/-- A run whose formulas are all converted reports so, whatever it would do at a failure. -/
theorem Converts.run_eq (created : fs.createDirectory b.directory = .ok fs₀)
    (converts : b.Converts fs₀ 0 paths files) :
    b.run fs paths = (files, .ok ⟨paths.length, []⟩) := by
  have fast := converts.runFailFast_append []
  rw [List.append_nil, runFailFast] at fast
  rw [run, Files.createDirectory_eq_ok.mp created]
  dsimp only
  rw [fast, converts.runTolerant_eq]
  cases b.failFast <;> simp [Report.empty]

section
variable (created : fs.createDirectory b.directory = .ok fs₀)
  (converts : b.Converts fs₀ 0 before stopped)
  (failed : b.convertFile stopped before.length path = .error e)
include created converts failed

/-- The first failure ends a run that fails fast. -/
theorem Converts.run_of_failFast (fast : b.failFast = true) (after : List String) :
    b.run fs (before ++ path :: after) =
      (stopped, .error (.formula ⟨before.length, path, e⟩)) := by
  have ended := converts.runFailFast_append (path :: after)
  rw [Nat.zero_add, runFailFast, failed] at ended
  rw [run, Files.createDirectory_eq_ok.mp created]
  simp only [fast, if_true, ended]

/-- A tolerant run notes the first failure and goes on with the formulas after it. -/
theorem Converts.run_of_tolerant (tolerant : b.failFast = false) (after : List String) :
    b.run fs (before ++ path :: after) =
      ((b.goOn stopped ⟨before.length, path, e⟩ after).1,
        .ok (b.goOn stopped ⟨before.length, path, e⟩ after).2) := by
  have noted : b.runTolerant fs₀ .empty 0 (before ++ path :: after) =
      b.goOn stopped ⟨before.length, path, e⟩ after := by
    rw [converts.runTolerant_append, runTolerant, Nat.zero_add, failed, goOn]
    simp only [Report.empty, Nat.zero_add, List.nil_append]
  rw [run, Files.createDirectory_eq_ok.mp created]
  simp only [tolerant, Bool.false_eq_true, if_false, noted]

end

/-- The first failure stays the first of the report. -/
theorem exists_failed_goOn (b : Batch) (stopped : Files) (failure : FailedFormula)
    (after : List String) : ∃ later, (b.goOn stopped failure after).2.failed = failure :: later ∧
      ∀ f ∈ later, failure.index < f.index :=
  exists_failed_runTolerant b stopped ⟨failure.index, [failure]⟩ (failure.index + 1) after

/-- What was written before a failure remains when the run goes on, unless a later output goes to
the same file. -/
theorem Converts.read_goOn (converts : b.Converts fs₀ 0 before stopped) (failure : FailedFormula)
    (here : failure.index = before.length) (after : List String) (inside : k < before.length) :
    ∃ contents, stopped.read (b.outputPath k) = .ok contents ∧
      ((∀ j < before.length + (after.length + 1), before.length < j →
          ¬fs₀.SameFile (b.outputPath k) (b.outputPath j)) →
        (b.goOn stopped failure after).1.read (b.outputPath k) = .ok contents) := by
  obtain ⟨l, contents, placed, there⟩ :=
    converts.exists_output (Nat.zero_le k) (by rwa [Nat.zero_add])
  have placed' := converts.puts.place_eq_ok_iff.mpr placed
  have rest := puts_runTolerant b stopped ⟨failure.index, [failure]⟩ (failure.index + 1) after
  refine ⟨contents, Files.read_eq_ok_of_place placed' there, fun apart =>
    Files.read_eq_ok_of_place (rest.place_eq_ok_iff.mpr placed') ?_⟩
  rw [goOn, rest.kept l, there]
  rintro m ⟨j, above, below, output⟩ shared
  refine apart j (by omega) (by omega) ?_
  exact converts.puts.sameFile_iff.mp ⟨l, m, placed', output, shared⟩

/-- At the first failure a run that fails fast stops where a tolerant run goes on. -/
theorem Converts.stopsAt (created : fs.createDirectory b.directory = .ok fs₀)
    (converts : b.Converts fs₀ 0 before stopped)
    (failed : b.convertFile stopped before.length path = .error e) (after : List String)
    (ran : b.tolerant.run fs (before ++ path :: after) = (files, .ok report)) :
    b.StopsAt fs fs₀ (before ++ path :: after) ⟨before.length, path, e⟩ stopped files report := by
  have whole := Converts.run_of_tolerant (b := b.tolerant) created (converts.withMode false) failed
    rfl after
  obtain ⟨rfl, ended⟩ := Prod.mk.inj (ran.symm.trans whole)
  obtain rfl := Except.ok.inj ended
  have written (i : Nat) (inside : i < before.length) :=
    Converts.read_goOn (b := b.tolerant) (converts.withMode false) ⟨before.length, path, e⟩ rfl
      after inside
  refine ⟨by simp, fails_of_convertFile failed, exists_failed_goOn _ _ _ after, ?_, ?_, ?_, ?_⟩
  · have prefixed := Converts.run_eq (b := b.tolerant) created (converts.withMode false)
    rwa [List.take_left]
  · rw [List.length_append, List.length_cons]
    exact written
  · intro unlinked i (inside : i < before.length)
    obtain ⟨contents, stored, kept⟩ := written i inside
    refine (kept fun j below above same => ?_).trans stored.symm
    have := distinct_of_unlinked (unlinked.of_createDirectory created) b
      (before.length + (after.length + 1)) i (by omega) j below same
    omega
  · intro l apart
    refine converts.puts.kept l fun m ⟨i, _, inside, placed⟩ => ?_
    exact apart i (by rwa [Nat.zero_add] at inside) m placed

/-! ## Success -/

/-- A run with a formula that fails does not report success. -/
theorem isSuccess_eq_false_of_fails (created : fs.createDirectory b.directory = .ok fs₀)
    (converts : b.Converts fs₀ 0 before stopped)
    (failed : b.convertFile stopped before.length path = .error e)
    (ran : b.run fs (before ++ path :: after) = (files, .ok report)) :
    report.isSuccess = false := by
  cases mode : b.failFast with
  | true =>
    rw [Converts.run_of_failFast created converts failed mode after] at ran
    cases ran
  | false =>
    rw [Converts.run_of_tolerant created converts failed mode after] at ran
    obtain ⟨-, ended⟩ := Prod.mk.inj ran
    obtain rfl := Except.ok.inj ended
    obtain ⟨later, noted, -⟩ := exists_failed_goOn b stopped ⟨before.length, path, e⟩ after
    rw [Report.isSuccess, noted]
    rfl

/-- A run reports success when every formula is converted, whatever it would do at a failure. -/
theorem success_iff_converts (created : fs.createDirectory b.directory = .ok fs₀)
    (paths : List String) (files : Files) :
    (∃ report, b.run fs paths = (files, .ok report) ∧ report.isSuccess = true) ↔
      b.Converts fs₀ 0 paths files := by
  constructor
  · rintro ⟨report, ran, success⟩
    rcases converts_or_fails b fs₀ 0 paths with ⟨files', converts⟩ | ⟨before, path, after, stopped,
      e, rfl, converts, failed⟩
    · obtain ⟨rfl, -⟩ := Prod.mk.inj ((converts.run_eq created).symm.trans ran)
      exact converts
    · rw [Nat.zero_add] at failed
      rw [isSuccess_eq_false_of_fails created converts failed ran] at success
      cases success
  · intro converts
    exact ⟨_, converts.run_eq created, rfl⟩

/-- A successful run goes the same way whatever it would do at a failure. -/
theorem run_withMode_of_success (ran : b.run fs paths = (files, .ok report))
    (success : report.isSuccess = true) (mode : Bool) :
    Batch.run { b with failFast := mode } fs paths = (files, .ok report) := by
  obtain ⟨fs₀, created⟩ := exists_created_of_run ran
  have converts := (success_iff_converts created _ _).mp ⟨report, ran, success⟩
  rw [← ran, converts.run_eq created]
  exact Converts.run_eq created (converts.withMode mode)

/-- A run that fails fast has no failure to report. -/
theorem isSuccess_of_failFast (fast : b.failFast = true)
    (ran : b.run fs paths = (files, .ok report)) : report.isSuccess = true := by
  obtain ⟨fs₀, created⟩ := exists_created_of_run ran
  rcases converts_or_fails b fs₀ 0 paths with ⟨files', converts⟩ | ⟨before, path, after, stopped,
    e, rfl, converts, failed⟩
  · obtain ⟨-, ended⟩ := Prod.mk.inj ((converts.run_eq created).symm.trans ran)
    obtain rfl := Except.ok.inj ended
    rfl
  · rw [Nat.zero_add] at failed
    rw [Converts.run_of_failFast created converts failed fast after] at ran
    cases ran

/-- Where a tolerant run reports a failure, a run that fails fast stops at the first. -/
theorem exists_stopsAt (ran : b.tolerant.run fs paths = (files, .ok report))
    (unsuccessful : report.isSuccess = false) :
    ∃ fs₀ stopped failure, fs.createDirectory b.directory = .ok fs₀ ∧
      b.failingFast.run fs paths = (stopped, .error (.formula failure)) ∧
      b.StopsAt fs fs₀ paths failure stopped files report := by
  obtain ⟨fs₀, (created : fs.createDirectory b.directory = .ok fs₀)⟩ := exists_created_of_run ran
  rcases converts_or_fails b fs₀ 0 paths with ⟨files', converts⟩ | ⟨before, path, after, stopped,
    e, rfl, converts, failed⟩
  · have whole := Converts.run_eq (b := b.tolerant) created (converts.withMode false)
    obtain ⟨-, ended⟩ := Prod.mk.inj (ran.symm.trans whole)
    obtain rfl := Except.ok.inj ended
    cases unsuccessful
  · rw [Nat.zero_add] at failed
    have fast := Converts.run_of_failFast (b := b.failingFast) created (converts.withMode true)
      failed rfl after
    exact ⟨fs₀, stopped, _, created, fast, converts.stopsAt created failed after ran⟩

end

end Batch

end FolGraph
