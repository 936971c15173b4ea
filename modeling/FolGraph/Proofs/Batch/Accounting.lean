import FolGraph.Proofs.Batch.Isolation
import FolGraph.Proofs.Files.Directories

/-!
# Accounting for a run

A tolerant run counts each formula once, as converted or as failed, lists the failures by position
and changes no file but the outputs of the formulas that did not fail (`Accounts`). This holds of
every interleaving (`Fits.accounts`) and so of the run that converts one formula after the other
(`run_accounts`). Where links make two outputs one file, it cannot hold what both formulas are
converted to (`unaccounted_output_and_failure`).
-/

namespace FolGraph.Batch

/-! ## Reports -/

section
variable {paths : List String} {outcomes : List (Except FormulaError Unit)} {index : Nat}
  {report : Report}

theorem collect_total (report : Report) (index : Nat) (length : outcomes.length = paths.length) :
    (collect report index paths outcomes).converted +
      (collect report index paths outcomes).failed.length =
        report.converted + report.failed.length + paths.length := by
  induction paths generalizing outcomes index report with
  | nil =>
    cases outcomes with
    | nil => rfl
    | cons => cases length
  | cons path paths ih =>
    cases outcomes with
    | nil => cases length
    | cons outcome outcomes =>
      rw [collect, ih _ _ (Nat.succ.inj length), List.length_cons]
      cases outcome <;> simp only [record, List.length_append, List.length_singleton] <;> omega

theorem mem_failed_record {path : String} {outcome : Except FormulaError Unit} {f : FailedFormula} :
    f ∈ (record report index path outcome).failed ↔
      f ∈ report.failed ∨ f.index = index ∧ path = f.path ∧ outcome = .error f.cause := by
  obtain ⟨i, p, cause⟩ := f
  cases outcome with
  | ok _ => simp [record]
  | error e =>
    simp only [record, List.mem_append, List.mem_singleton, FailedFormula.mk.injEq,
      Except.error.injEq]
    exact or_congr_right (and_congr_right fun _ => and_congr eq_comm eq_comm)

/-- The failures of a list are those of its positions. -/
theorem mem_failed_collect {f : FailedFormula} :
    f ∈ (collect report index paths outcomes).failed ↔
      f ∈ report.failed ∨ ∃ i, f.index = index + i ∧ paths[i]? = some f.path ∧
        outcomes[i]? = some (.error f.cause) := by
  induction paths generalizing outcomes index report with
  | nil => simp [collect]
  | cons path paths ih =>
    cases outcomes with
    | nil => simp [collect]
    | cons outcome outcomes =>
      rw [collect, ih, mem_failed_record, or_assoc, ← Nat.or_exists_add_one (p := fun i =>
        f.index = index + i ∧ (path :: paths)[i]? = some f.path ∧
          (outcome :: outcomes)[i]? = some (.error f.cause))]
      simp [Nat.add_comm, Nat.add_left_comm]

theorem pairwise_failed_collect (below : ∀ f ∈ report.failed, f.index < index)
    (increasing : report.failed.Pairwise (·.index < ·.index)) :
    (collect report index paths outcomes).failed.Pairwise (·.index < ·.index) := by
  induction paths generalizing outcomes index report with
  | nil => exact increasing
  | cons path paths ih =>
    cases outcomes with
    | nil => exact increasing
    | cons outcome outcomes =>
      rw [collect]
      cases outcome with
      | ok _ => exact ih (fun f mem => Nat.lt_succ_of_lt (below f mem)) increasing
      | error cause =>
        refine ih (fun f mem => ?_) ?_
        · rcases List.mem_append.mp mem with mem | mem
          · exact Nat.lt_succ_of_lt (below f mem)
          · obtain rfl := List.mem_singleton.mp mem
            exact Nat.lt_succ_self index
        · refine List.pairwise_append.mpr ⟨increasing, List.pairwise_singleton _ _, ?_⟩
          intro f mem f' mem'
          obtain rfl := List.mem_singleton.mp mem'
          exact below f mem

end

/-! ## Accounts -/

/-- A formula fails: it cannot be loaded, its graph is verified and refused, or its output cannot be
written. -/
inductive Fails (b : Batch) (fs : Files) (index : Nat) (path : String) : Prop
  | loading {e : LoadError} (load : fs.loadFormula path = .error e)
  | verification {f : Formula} {e : VerifyError} (load : fs.loadFormula path = .ok f)
      (verifies : b.conversion.verifies = true)
      (refused : verify f f.encode b.conversion.strict = .error e)
  | writing {f : Formula} {contents : ByteArray} {e : FileError}
      (load : fs.loadFormula path = .ok f) (convert : b.conversion.convert f = .ok contents)
      (write : fs.write (b.outputPath index) contents = .error e)

/-- What a tolerant run owes its formulas, by the files from which it starts. -/
structure Accounts (b : Batch) (fs : Files) (paths : List String) (files : Files)
    (report : Report) : Prop where
  total : report.converted + report.failed.length = paths.length
  increasing : report.failed.Pairwise (·.index < ·.index)
  failed_iff : ∀ i path, (∃ f ∈ report.failed, f.index = i ∧ f.path = path) ↔
    paths[i]? = some path ∧ b.Fails fs i path
  /-- Every other output holds what its formula is converted to, if it goes to a file of its own. -/
  written : ∀ i path, paths[i]? = some path → ¬b.Fails fs i path → b.Own fs paths.length i →
    ∃ f contents, fs.loadFormula path = .ok f ∧ b.conversion.convert f = .ok contents ∧
      files.read (b.outputPath i) = .ok contents
  /-- The output of a formula that fails is left as it was, if it goes to a file of its own. -/
  untouched : ∀ i path l, paths[i]? = some path → b.Fails fs i path → b.Own fs paths.length i →
    fs.place (b.outputPath i) = .ok l → files.find? l = fs.find? l
  /-- Nothing changes but the outputs. -/
  frame : ∀ l, (∀ i < paths.length, ∀ m, fs.place (b.outputPath i) = .ok m → ¬fs.Shares l m) →
    files.find? l = fs.find? l
  sharing : ∀ l m, files.Shares l m ↔ fs.Shares l m
  workingDirectory : files.workingDirectory = fs.workingDirectory

section
variable {b : Batch} {fs fs₀ files : Files} {paths : List String} {index : Nat} {path : String}
  {outcomes : List (Except FormulaError Unit)}

theorem convert_eq_error {c : Conversion} {f : Formula} {e : VerifyError} :
    c.convert f = .error e ↔ c.verifies = true ∧ verify f f.encode c.strict = .error e := by
  rw [Conversion.convert]
  cases c.verifies
  · simp
  · cases verify f f.encode c.strict <;> simp [bind, Except.bind]

theorem fails_iff : b.Fails fs index path ↔ ∃ e, b.alone fs index path = .error e := by
  constructor
  · intro fails
    cases fails with
    | @loading e load => exact ⟨.load e, alone_of_load load⟩
    | @verification f e load verifies refused =>
      exact ⟨.verify e, alone_of_convert load (convert_eq_error.mpr ⟨verifies, refused⟩)⟩
    | @writing f contents e load convert write =>
      have produced := produce_eq_ok.mpr ⟨f, load, convert⟩
      exact ⟨.unwritable (b.outputPath index) e,
        alone_of_writePlace produced (Files.write_eq_error.mp write)⟩
  · rintro ⟨e, failed⟩
    cases load : fs.loadFormula path with
    | error e => exact .loading load
    | ok f =>
      cases convert : b.conversion.convert f with
      | error e =>
        obtain ⟨verifies, refused⟩ := convert_eq_error.mp convert
        exact .verification load verifies refused
      | ok contents =>
        cases place : fs.writePlace (b.outputPath index) with
        | error e => exact .writing load convert (Files.write_eq_error.mpr place)
        | ok l =>
          have written := alone_eq_ok.mpr ⟨produce_eq_ok.mpr ⟨f, load, convert⟩, place⟩
          rw [failed] at written
          cases written

theorem not_fails_iff :
    ¬b.Fails fs index path ↔ ∃ l contents, b.alone fs index path = .ok (l, contents) := by
  rw [fails_iff]
  cases b.alone fs index path with
  | error e => simp
  | ok output =>
    obtain ⟨l, contents⟩ := output
    simp

/-- In the end the task at each position has the outcome that it has alone. -/
theorem Fits.outcome (fits : Fits b fs paths ⟨files, outcomes.map .finished⟩)
    (named : paths[index]? = some path) :
    (∃ l contents, b.alone fs index path = .ok (l, contents) ∧
      outcomes[index]? = some (.ok ())) ∨
    ∃ e e', b.alone fs index path = .error e ∧ outcomes[index]? = some (.error e') ∧
      b.SameCause fs paths.length index path e e' := by
  have inside : index < outcomes.length := by
    rw [← List.length_map (f := Phase.finished), fits.length]
    exact (List.getElem?_eq_some_iff.mp named).1
  have reached : (outcomes.map Phase.finished)[index]? = some (.finished outcomes[index]) := by
    simp [inside]
  rw [List.getElem?_eq_getElem inside]
  have fitting := fits.phase named reached
  generalize outcomes[index] = outcome at fitting
  cases fitting with
  | written alone => exact Or.inl ⟨_, _, alone, rfl⟩
  | failed alone same => exact Or.inr ⟨_, _, alone, rfl, same⟩

theorem Fits.accounts (fits : Fits b fs paths ⟨files, outcomes.map .finished⟩) :
    Accounts b fs paths files (collect .empty 0 paths outcomes) where
  total := by
    have length : outcomes.length = paths.length := by simpa using fits.length
    simpa [Report.empty] using collect_total .empty 0 length
  increasing := pairwise_failed_collect nofun .nil
  failed_iff i path := by
    simp only [mem_failed_collect, Report.empty, List.not_mem_nil, false_or, Nat.zero_add,
      fails_iff]
    constructor
    · rintro ⟨f, ⟨_, rfl, named, finished⟩, rfl, rfl⟩
      rcases fits.outcome named with ⟨_, _, _, written⟩ | ⟨e, _, alone, _⟩
      · rw [finished] at written
        cases written
      · exact ⟨named, e, alone⟩
    · rintro ⟨named, e, failed⟩
      rcases fits.outcome named with ⟨_, _, alone, _⟩ | ⟨_, e', _, finished, _⟩
      · rw [failed] at alone
        cases alone
      · exact ⟨⟨i, path, e'⟩, ⟨i, rfl, named, finished⟩, rfl, rfl⟩
  written i path named succeeds own := by
    obtain ⟨l, contents, alone⟩ := not_fails_iff.mp succeeds
    obtain ⟨f, load, convert⟩ := produce_eq_ok.mp (alone_eq_ok.mp alone).1
    refine ⟨f, contents, load, convert, ?_⟩
    have finished : (outcomes.map Phase.finished)[i]? = some (.finished (.ok ())) := by
      rcases fits.outcome named with ⟨_, _, _, written⟩ | ⟨_, _, failed, _⟩
      · rw [List.getElem?_map, written]
        rfl
      · rw [alone] at failed
        cases failed
    exact Files.read_eq_ok_of_place (fits.puts.place_eq_ok_iff.mpr (place_of_alone alone))
      (fits.written ⟨named, finished, alone⟩ own)
  untouched i path l named fails own placed := by
    refine fits.changed.kept l fun m ⟨j, contents, path', written⟩ shared => ?_
    obtain rfl := written.index_eq own placed shared
    obtain rfl := Option.some.inj (named.symm.trans written.named)
    obtain ⟨e, failed⟩ := fails_iff.mp fails
    rw [written.alone] at failed
    cases failed
  frame l apart := fits.puts.kept l fun m ⟨i, inside, placed⟩ => apart i inside m placed
  sharing := fits.puts.shares
  workingDirectory := fits.puts.workingDirectory

/-- The state when nothing has been done. -/
theorem Fits.start (b : Batch) (fs : Files) (paths : List String) :
    Fits b fs paths ⟨fs, List.replicate paths.length .waiting⟩ := by
  have waiting {i : Nat} {phase : Phase}
      (reached : (List.replicate paths.length Phase.waiting)[i]? = some phase) :
      phase = .waiting := List.eq_of_mem_replicate (List.mem_of_getElem? reached)
  refine ⟨List.length_replicate, fun _ reached => ?_, fun written => ?_, .refl _ fs⟩
  · rw [waiting reached]
    exact .waiting
  · cases waiting written.finished

/-- A run that goes on after failures accounts for all of its formulas. Creating its output
directory adds directories only, and where there are no links its outputs are different files. -/
theorem run_accounts (tolerant : b.failFast = false)
    (created : fs.createDirectory b.directory = .ok fs₀) (apart : b.Apart fs₀ paths) :
    (∃ files report, b.run fs paths = (files, .ok report) ∧ b.Accounts fs₀ paths files report) ∧
      (fs.Unlinked → b.Distinct fs₀ paths.length) ∧
      fs₀.workingDirectory = fs.workingDirectory ∧ (∀ l m, fs₀.Shares l m ↔ fs.Shares l m) ∧
      ∀ l, fs₀.find? l = fs.find? l ∨
        fs.find? l = none ∧ fs₀.find? l = some .directory ∧ l ∈ fs₀.passes b.directory := by
  have changed := Files.createDirectories_changed fs b.directory
  have distinct (unlinked : fs.Unlinked) :=
    distinct_of_unlinked (unlinked.of_createDirectory created) b paths.length
  rw [Files.createDirectory_eq_ok] at created
  rw [created] at changed
  refine ⟨?_, distinct, changed⟩
  have runs := runs_run b fs paths tolerant
  generalize b.run fs paths = result at runs
  cases runs with
  | noDirectory failed =>
    rw [created] at failed
    cases failed
  | finished created' steps =>
    obtain ⟨rfl, -⟩ := Prod.mk.inj (created.symm.trans created')
    exact ⟨_, _, rfl, ((Fits.start b fs₀ paths).steps apart steps).accounts⟩

end

/-- A formula of one symbol in the working directory. -/
def oneFormula : Files :=
  (Files.empty []).putFile ["f.json"] "\x7b\"value\":\"p\"\x7d".toUTF8

theorem unlinked_oneFormula : oneFormula.Unlinked :=
  (Files.unlinked_empty []).putFile (List.cons_ne_nil _ _) _

/-- The same when the output directory has been created. -/
def oneFormulaOpened : Files := oneFormula.putDirectory ["out"]

/-- A run with the usual settings. -/
def usual : Batch := .ofSettings {} "out"

/-- The second path leads through the place of the first output. -/
def crossing : List String := ["f.json", "out/0.json/x"]

theorem apart_crossing : usual.Apart oneFormulaOpened crossing := by decide +kernel

theorem run_accounts_crossing :
    usual.failFast = false ∧ oneFormula.createDirectory usual.directory = .ok oneFormulaOpened ∧
      usual.Apart oneFormulaOpened crossing ∧
      (∃ files report, usual.run oneFormula crossing = (files, .ok report) ∧
        usual.Accounts oneFormulaOpened crossing files report) ∧
      usual.Distinct oneFormulaOpened crossing.length ∧
      oneFormulaOpened.workingDirectory = oneFormula.workingDirectory ∧
      (∀ l m, oneFormulaOpened.Shares l m ↔ oneFormula.Shares l m) ∧
      ∀ l, oneFormulaOpened.find? l = oneFormula.find? l ∨
        oneFormula.find? l = none ∧ oneFormulaOpened.find? l = some .directory ∧
          l ∈ oneFormulaOpened.passes usual.directory := by
  have created : oneFormula.createDirectory usual.directory = .ok oneFormulaOpened := rfl
  obtain ⟨accounts, distinct, changed⟩ := run_accounts rfl created apart_crossing
  exact ⟨rfl, created, apart_crossing, accounts, distinct unlinked_oneFormula, changed⟩

/-- What a formula of one symbol is converted to. -/
def rendered (label : String) : ByteArray := Export.render .pyg .json (Formula.node label []).encode

section
variable {fs : Files} {index : Nat} {path text label : String} {l : Location}

theorem produce_usual (read : fs.readText path = .ok text)
    (parsed : Formula.ofJsonText text = .ok (.node label [])) :
    usual.produce fs path = .ok (rendered label) := by
  have load : fs.loadFormula path = .ok (.node label []) := by
    simp only [Files.loadFormula, read, parsed]
  exact produce_eq_ok.mpr ⟨_, load, rfl⟩

theorem convertFile_usual (read : fs.readText path = .ok text)
    (parsed : Formula.ofJsonText text = .ok (.node label []))
    (place : fs.writePlace (usual.outputPath index) = .ok l) :
    usual.convertFile fs index path = .ok (fs.putFile l (rendered label)) := by
  simp only [convertFile, produce_usual read parsed, Files.write_eq, place, bind, Except.bind,
    Except.map]

end

theorem ofJsonText_p : Formula.ofJsonText "\x7b\"value\":\"p\"\x7d" = .ok (.node "p" []) := by cbv

theorem ofJsonText_X : Formula.ofJsonText "\x7b\"value\":\"X\"\x7d" = .ok (.node "X" []) := by cbv

/-- Two formulas in the working directory, and two names of one file in the output directory. -/
def linked : Files where
  stored := [(["f.json"], .file 0), (["g.json"], .file 1), (["out"], .directory),
    (["out", "0.json"], .file 2), (["out", "1.json"], .file 2)]
  contents := [(0, "\x7b\"value\":\"p\"\x7d".toUTF8), (1, "\x7b\"value\":\"X\"\x7d".toUTF8),
    (2, ByteArray.empty)]
  workingDirectory := []

theorem rendered_ne : rendered "X" ≠ rendered "p" := by decide +kernel

theorem apart_linked : usual.Apart linked ["f.json", "g.json"] := by decide +kernel

/-- The files when one output has been written, and then the other. -/
def linkedFirstLast : Files :=
  (linked.putFile ["out", "0.json"] (rendered "p")).putFile ["out", "1.json"] (rendered "X")

theorem run_linked :
    usual.run linked ["f.json", "g.json"] = (linkedFirstLast, .ok ⟨2, []⟩) := by
  have created : linked.createDirectories usual.directory = (linked, .ok ()) := rfl
  have tolerant : usual.failFast = false := rfl
  have first : usual.convertFile linked 0 "f.json" =
      .ok (linked.putFile ["out", "0.json"] (rendered "p")) :=
    convertFile_usual rfl ofJsonText_p rfl
  have second : usual.convertFile (linked.putFile ["out", "0.json"] (rendered "p")) 1 "g.json" =
      .ok linkedFirstLast :=
    convertFile_usual rfl ofJsonText_X rfl
  simp only [run, created, tolerant, Bool.false_eq_true, if_false, runTolerant, first, second,
    Nat.zero_add]
  rfl

/-- If two outputs are one file, the first is lost. And a formula may be found only by way of the
output directory that is created. -/
theorem unaccounted_output_and_failure :
    usual.failFast = false ∧
      (linked.createDirectory usual.directory = .ok linked ∧
        usual.Apart linked ["f.json", "g.json"] ∧
        ∃ files contents, usual.run linked ["f.json", "g.json"] = (files, .ok ⟨2, []⟩) ∧
          usual.produce linked "f.json" = .ok contents ∧
          files.read (usual.outputPath 0) ≠ .ok contents) ∧
      (oneFormula.createDirectory usual.directory = .ok oneFormulaOpened ∧
        usual.Apart oneFormulaOpened ["out/../f.json"] ∧
        usual.Fails oneFormula 0 "out/../f.json" ∧
        ∃ files, usual.run oneFormula ["out/../f.json"] = (files, .ok ⟨1, []⟩)) := by
  have produced : usual.produce linked "f.json" = .ok (rendered "p") :=
    produce_usual rfl ofJsonText_p
  have overwritten : linkedFirstLast.read (usual.outputPath 0) = .ok (rendered "X") := rfl
  have ran : usual.run oneFormula ["out/../f.json"] =
      (oneFormulaOpened.putFile ["out", "0.json"] (rendered "p"), .ok ⟨1, []⟩) := by
    have opened : oneFormula.createDirectories usual.directory = (oneFormulaOpened, .ok ()) := rfl
    have tolerant : usual.failFast = false := rfl
    have converted : usual.convertFile oneFormulaOpened 0 "out/../f.json" =
        .ok (oneFormulaOpened.putFile ["out", "0.json"] (rendered "p")) :=
      convertFile_usual rfl ofJsonText_p rfl
    simp only [run, opened, tolerant, Bool.false_eq_true, if_false, runTolerant, converted]
    rfl
  refine ⟨rfl, ⟨rfl, apart_linked, _, _, run_linked, produced, ?_⟩, rfl, by decide +kernel,
    .loading (Files.loadFormula_of_read rfl), _, ran⟩
  rw [overwritten]
  exact fun same => rendered_ne (Except.ok.inj same)

end FolGraph.Batch
