import FolGraph.Proofs.Batch.Accounting
import Mathlib.Data.List.Forall2

/-!
# Schedules

The result of a tolerant run does not depend on the order in which its tasks take their steps
(`runs_same`): the report is the same, except that a path that leads through the place of an output
may fail for one of two causes (`SameCause`), and so are the files, if no two outputs are one file.
-/

namespace FolGraph

/-- Files that hold the same at every place, under the same names. -/
structure Files.Same (fs fs' : Files) : Prop where
  workingDirectory : fs.workingDirectory = fs'.workingDirectory
  find?_eq : ∀ l, fs.find? l = fs'.find? l
  shares_iff : ∀ l m, fs.Shares l m ↔ fs'.Shares l m

namespace Batch

inductive SameOutcome (b : Batch) (fs : Files) (count index : Nat) (path : String) :
    Except FormulaError Unit → Except FormulaError Unit → Prop
  | written : SameOutcome b fs count index path (.ok ()) (.ok ())
  | failed {e e' : FormulaError} (same : b.SameCause fs count index path e e') :
      SameOutcome b fs count index path (.error e) (.error e')

structure SameFailure (b : Batch) (fs : Files) (count : Nat) (f f' : FailedFormula) : Prop where
  index : f.index = f'.index
  path : f.path = f'.path
  cause : b.SameCause fs count f.index f.path f.cause f'.cause

/-- Reports with the same count and the same failures in the same order. -/
structure SameReport (b : Batch) (fs : Files) (count : Nat) (r r' : Report) : Prop where
  converted : r.converted = r'.converted
  failed : List.Forall₂ (b.SameFailure fs count) r.failed r'.failed

/-- Results of a run with the same report, or without a report for the same cause. -/
inductive SameResult (b : Batch) (fs : Files) (paths : List String) :
    Except BatchError Report → Except BatchError Report → Prop
  | noReport (e : BatchError) : SameResult b fs paths (.error e) (.error e)
  | report {fs₀ : Files} {r r' : Report} (created : fs.createDirectory b.directory = .ok fs₀)
      (same : b.SameReport fs₀ paths.length r r') : SameResult b fs paths (.ok r) (.ok r')

section
variable {b : Batch} {fs fs₀ files files' : Files} {paths : List String} {index count : Nat}
  {path : String} {outcomes outcomes' : List (Except FormulaError Unit)} {r r' : Report}

theorem SameReport.record (same : b.SameReport fs count r r')
    {outcome outcome' : Except FormulaError Unit}
    (h : b.SameOutcome fs count index path outcome outcome') :
    b.SameReport fs count (record r index path outcome) (record r' index path outcome') := by
  cases h with
  | written => exact ⟨congrArg (· + 1) same.converted, same.failed⟩
  | failed cause =>
    exact ⟨same.converted, List.rel_append same.failed (.cons ⟨rfl, rfl, cause⟩ .nil)⟩

theorem SameReport.collect (same : b.SameReport fs count r r')
    (h : ∀ (i : Nat) path, paths[i]? = some path → ∃ outcome outcome', outcomes[i]? = some outcome ∧
      outcomes'[i]? = some outcome' ∧ b.SameOutcome fs count (index + i) path outcome outcome') :
    b.SameReport fs count (collect r index paths outcomes) (collect r' index paths outcomes') := by
  induction paths generalizing outcomes outcomes' index r r' with
  | nil => simpa only [Batch.collect] using same
  | cons path paths ih =>
    obtain ⟨outcome, outcome', first, first', alike⟩ := h 0 path rfl
    obtain ⟨_, rfl⟩ := List.head?_eq_some_iff.mp (List.head?_eq_getElem? ▸ first)
    obtain ⟨_, rfl⟩ := List.head?_eq_some_iff.mp (List.head?_eq_getElem? ▸ first')
    refine ih (same.record alike) fun i path named => ?_
    rw [Nat.add_right_comm]
    exact h (i + 1) path named

theorem SameFailure.eq {f f' : FailedFormula} (same : b.SameFailure fs count f f')
    (input : ¬fs.Crosses (b.outputPlaces fs count) f.path)
    (output : ¬fs.Crosses (b.outputPlaces fs count) (b.outputPath f.index)) : f = f' := by
  obtain ⟨index, path, cause⟩ := f
  obtain ⟨index', path', cause'⟩ := f'
  obtain ⟨rfl, rfl, causes⟩ := same
  dsimp only at causes
  cases causes with
  | same => rfl
  | reading crosses => exact absurd crosses input
  | writing crosses => exact absurd crosses output

/-- The failures are the same for the same causes if no path leads through the place of an
output. -/
theorem SameReport.eq (same : b.SameReport fs count r r')
    (clear : ∀ f ∈ r.failed, ¬fs.Crosses (b.outputPlaces fs count) f.path ∧
      ¬fs.Crosses (b.outputPlaces fs count) (b.outputPath f.index)) : r = r' := by
  obtain ⟨converted, failed⟩ := r
  obtain ⟨converted', failed'⟩ := r'
  obtain ⟨rfl, failures⟩ := same
  dsimp only at failures clear
  congr 1
  induction failures with
  | nil => rfl
  | @cons f f' _ _ alike _ ih =>
    obtain ⟨⟨input, output⟩, rest⟩ := List.forall_mem_cons.mp clear
    rw [alike.eq input output, ih rest]

/-- Two interleavings that have ended agree on what became of each formula. -/
theorem Fits.sameOutcome (fits : Fits b fs paths ⟨files, outcomes.map .finished⟩)
    (fits' : Fits b fs paths ⟨files', outcomes'.map .finished⟩) (i : Nat) (path : String)
    (named : paths[i]? = some path) : ∃ outcome outcome', outcomes[i]? = some outcome ∧
      outcomes'[i]? = some outcome' ∧ b.SameOutcome fs paths.length i path outcome outcome' := by
  rcases fits.outcome named with ⟨_, _, alone, at_⟩ | ⟨e, e₁, alone, at_, same⟩ <;>
    rcases fits'.outcome named with ⟨_, _, alone', at'⟩ | ⟨e', e₂, alone', at', same'⟩
  · exact ⟨_, _, at_, at', .written⟩
  · rw [alone] at alone'
    cases alone'
  · rw [alone] at alone'
    cases alone'
  · obtain rfl := Except.error.inj (alone.symm.trans alone')
    exact ⟨_, _, at_, at', .failed (same.symm.trans same')⟩

theorem Fits.written_of_written (fits : Fits b fs paths ⟨files, outcomes.map .finished⟩)
    {s : State} {l : Location} {contents : ByteArray}
    (written : Written b fs paths s index l contents path) :
    Written b fs paths ⟨files, outcomes.map .finished⟩ index l contents path := by
  rcases fits.outcome written.named with ⟨_, _, _, finished⟩ | ⟨_, _, failed, _⟩
  · exact ⟨written.named, by rw [List.getElem?_map, finished]; rfl, written.alone⟩
  · rw [written.alone] at failed
    cases failed

/-- Two interleavings that have ended leave the same files. -/
theorem Fits.sameFiles (distinct : b.Distinct fs paths.length)
    (fits : Fits b fs paths ⟨files, outcomes.map .finished⟩)
    (fits' : Fits b fs paths ⟨files', outcomes'.map .finished⟩) : files.Same files' where
  workingDirectory := fits.puts.workingDirectory.trans fits'.puts.workingDirectory.symm
  find?_eq l := by
    by_cases h : ∃ m, fs.Shares l m ∧ m ∈ b.writtenPlaces fs paths ⟨files, outcomes.map .finished⟩
    · obtain ⟨m, shared, i, contents, path, written⟩ := h
      have own := distinct i (List.getElem?_eq_some_iff.mp written.named).1
      have shared₁ := ((fits.puts.shares l m).mpr shared).find?_eq
      have shared₂ := ((fits'.puts.shares l m).mpr shared).find?_eq
      rw [← shared₁, ← shared₂, fits.written written own,
        fits'.written (fits'.written_of_written written) own]
    · have apart (m : Location) (inside : m ∈ b.writtenPlaces fs paths
          ⟨files, outcomes.map .finished⟩) : ¬fs.Shares l m := fun shared => h ⟨m, shared, inside⟩
      rw [fits.changed.kept l apart, fits'.changed.kept l fun m ⟨i, contents, path, written⟩ =>
        apart m ⟨i, contents, path, fits.written_of_written written⟩]
  shares_iff l m := (fits.puts.shares l m).trans (fits'.puts.shares l m).symm

/-- No formula is sought by way of an output, and no output by way of another. -/
def Clear (b : Batch) (fs : Files) (paths : List String) : Prop :=
  ∀ i path, paths[i]? = some path → ¬fs.Crosses (b.outputPlaces fs paths.length) path ∧
    ¬fs.Crosses (b.outputPlaces fs paths.length) (b.outputPath i)

/-- Two interleavings that have ended have the same report. -/
theorem Fits.sameReport (fits : Fits b fs paths ⟨files, outcomes.map .finished⟩)
    (fits' : Fits b fs paths ⟨files', outcomes'.map .finished⟩) :
    b.SameReport fs paths.length (Batch.collect .empty 0 paths outcomes)
        (Batch.collect .empty 0 paths outcomes') ∧
      (b.Clear fs paths →
        Batch.collect .empty 0 paths outcomes = Batch.collect .empty 0 paths outcomes') := by
  have same : b.SameReport fs paths.length (Batch.collect .empty 0 paths outcomes)
      (Batch.collect .empty 0 paths outcomes') := by
    refine SameReport.collect ⟨rfl, .nil⟩ fun i path named => ?_
    rw [Nat.zero_add]
    exact fits.sameOutcome fits' i path named
  refine ⟨same, fun clear => same.eq fun f failed => ?_⟩
  rcases mem_failed_collect.mp failed with earlier | ⟨i, here, named, _⟩
  · cases earlier
  · rw [Nat.zero_add] at here
    rw [here]
    exact clear i f.path named

/-- Whatever the order of the steps is, a tolerant run ends as it does when the formulas are
converted one after the other: with the same files, if no two outputs are one file, and with the
same report, up to the cause of a failure whose path leads through the place of an output. Where
there are no links the outputs are different files, and none of them lies on the way to another. -/
theorem runs_same {result : Except BatchError Report} (tolerant : b.failFast = false)
    (apart : ∀ fs₀, fs.createDirectory b.directory = .ok fs₀ → b.Apart fs₀ paths)
    (runs : b.Runs fs paths (files, result)) :
    ((∀ fs₀, fs.createDirectory b.directory = .ok fs₀ → b.Distinct fs₀ paths.length) →
        files.Same (b.run fs paths).1) ∧
      b.SameResult fs paths result (b.run fs paths).2 ∧
      ((∀ fs₀, fs.createDirectory b.directory = .ok fs₀ → b.Clear fs₀ paths) →
        result = (b.run fs paths).2) ∧
      (fs.Unlinked → files.Same (b.run fs paths).1 ∧
        ((∀ fs₀, fs.createDirectory b.directory = .ok fs₀ →
          ∀ path ∈ paths, ¬fs₀.Crosses (b.outputPlaces fs₀ paths.length) path) →
          result = (b.run fs paths).2)) := by
  have sequential := runs_run b fs paths tolerant
  generalize b.run fs paths = last at sequential
  cases runs with
  | @noDirectory _ e failed =>
    cases sequential with
    | noDirectory failed' =>
      obtain ⟨rfl, same⟩ := Prod.mk.inj (failed.symm.trans failed')
      obtain rfl := Except.error.inj same
      have same : files.Same files := ⟨rfl, fun _ => rfl, fun _ _ => Iff.rfl⟩
      exact ⟨fun _ => same, .noReport _, fun _ => rfl, fun _ => ⟨same, fun _ => rfl⟩⟩
    | finished created =>
      rw [failed] at created
      cases created
  | @finished fs₀ _ outcomes created steps =>
    cases sequential with
    | noDirectory failed =>
      rw [created] at failed
      cases failed
    | @finished _ files' outcomes' created' steps' =>
      obtain ⟨rfl, -⟩ := Prod.mk.inj (created.symm.trans created')
      have created := Files.createDirectory_eq_ok.mpr created
      have fits := (Fits.start b fs₀ paths).steps (apart fs₀ created) steps
      have fits' := (Fits.start b fs₀ paths).steps (apart fs₀ created) steps'
      obtain ⟨same, equal⟩ := fits.sameReport fits'
      have sameFiles (distinct : b.Distinct fs₀ paths.length) := fits.sameFiles distinct fits'
      refine ⟨fun distinct => sameFiles (distinct fs₀ created), .report created same,
        fun clear => congrArg Except.ok (equal (clear fs₀ created)), fun unlinked => ?_⟩
      have unlinked₀ := unlinked.of_createDirectory created
      refine ⟨?_, fun clear => ?_⟩
      · exact sameFiles (distinct_of_unlinked unlinked₀ b paths.length)
      · refine congrArg Except.ok (equal fun i path named => ⟨?_, ?_⟩)
        · exact clear fs₀ created path (List.mem_of_getElem? named)
        · exact not_crosses_outputPath unlinked₀ b paths.length i

end

/-- The files when the formula has been converted. -/
def oneFormulaConverted : Files := oneFormulaOpened.putFile ["out", "0.json"] (rendered "p")

/-- The report when the second path could not be read for a cause. -/
def crossingReport (cause : FileError) : Report :=
  ⟨1, [⟨1, "out/0.json/x", .load (.unreadableFormula "out/0.json/x" cause)⟩]⟩

theorem convertFile_first :
    usual.convertFile oneFormulaOpened 0 "f.json" = .ok oneFormulaConverted :=
  convertFile_usual rfl ofJsonText_p rfl

/-- The second task ends before the first begins. -/
theorem runs_lastFirst :
    usual.Runs oneFormula crossing (oneFormulaConverted, .ok (crossingReport .notFound)) := by
  have missing : oneFormulaOpened.loadFormula "out/0.json/x" =
      .error (.unreadableFormula "out/0.json/x" .notFound) := Files.loadFormula_of_read rfl
  have second := @Step.advance usual crossing ⟨oneFormulaOpened, [.waiting, .waiting]⟩ 1 _ _ rfl rfl
    (fun _ => nofun)
  simp only [advance, missing] at second
  have first := @steps_convertFile usual crossing ⟨oneFormulaOpened,
    [.waiting, .finished (.error (.load (.unreadableFormula "out/0.json/x" .notFound)))]⟩ 0 _
    rfl rfl
  rw [convertFile_first] at first
  have steps : Relation.ReflTransGen (usual.Step crossing)
      ⟨oneFormulaOpened, List.replicate crossing.length .waiting⟩
      ⟨oneFormulaConverted, List.map .finished
        [.ok (), .error (.load (.unreadableFormula "out/0.json/x" .notFound))]⟩ :=
    .head second first
  exact .finished rfl steps

theorem run_crossing :
    usual.run oneFormula crossing = (oneFormulaConverted, .ok (crossingReport .notADirectory)) := by
  have blocked : oneFormulaConverted.loadFormula "out/0.json/x" =
      .error (.unreadableFormula "out/0.json/x" .notADirectory) := Files.loadFormula_of_read rfl
  have second : usual.convertFile oneFormulaConverted 1 "out/0.json/x" =
      .error (.load (.unreadableFormula "out/0.json/x" .notADirectory)) := by
    simp only [convertFile, produce, blocked, bind, Except.bind]
  have created : oneFormula.createDirectories usual.directory = (oneFormulaOpened, .ok ()) := rfl
  have tolerant : usual.failFast = false := rfl
  simp only [run, created, tolerant, Bool.false_eq_true, if_false, crossing, runTolerant_cons,
    convertFile_first, settle, Nat.zero_add, second]
  rfl

theorem apart_of_created {fs : Files}
    (created : oneFormula.createDirectory usual.directory = .ok fs) : usual.Apart fs crossing := by
  obtain rfl := Except.ok.inj created
  exact apart_crossing

/-- The files when the outputs have been written the other way round. -/
def linkedLastFirst : Files :=
  (linked.putFile ["out", "1.json"] (rendered "X")).putFile ["out", "0.json"] (rendered "p")

/-- The second of two tasks that write one file ends before the first begins. -/
theorem runs_linked : usual.Runs linked ["f.json", "g.json"] (linkedLastFirst, .ok ⟨2, []⟩) := by
  have converted : usual.convertFile linked 1 "g.json" =
      .ok (linked.putFile ["out", "1.json"] (rendered "X")) :=
    convertFile_usual rfl ofJsonText_X rfl
  have converted' : usual.convertFile (linked.putFile ["out", "1.json"] (rendered "X")) 0 "f.json" =
      .ok linkedLastFirst :=
    convertFile_usual rfl ofJsonText_p rfl
  have second := @steps_convertFile usual ["f.json", "g.json"] ⟨linked, [.waiting, .waiting]⟩ 1 _
    rfl rfl
  rw [converted] at second
  have first := @steps_convertFile usual ["f.json", "g.json"]
    ⟨linked.putFile ["out", "1.json"] (rendered "X"), [.waiting, .finished (.ok ())]⟩ 0 _ rfl rfl
  rw [converted'] at first
  have steps : Relation.ReflTransGen (usual.Step ["f.json", "g.json"])
      ⟨linked, List.replicate 2 .waiting⟩ ⟨linkedLastFirst, List.map .finished [.ok (), .ok ()]⟩ :=
    second.trans first
  exact .finished rfl steps

/-- The message for a path through the place of an output depends on the order of the tasks, and so
does a file that is two outputs. -/
theorem message_depends_on_order :
    usual.failFast = false ∧
      ((∀ fs₀, oneFormula.createDirectory usual.directory = .ok fs₀ → usual.Apart fs₀ crossing) ∧
        ∃ files files' report report', usual.Runs oneFormula crossing (files, .ok report) ∧
          usual.run oneFormula crossing = (files', .ok report') ∧
          report.failed.map (·.cause.message) ≠ report'.failed.map (·.cause.message)) ∧
      (∀ fs₀, linked.createDirectory usual.directory = .ok fs₀ →
        usual.Apart fs₀ ["f.json", "g.json"]) ∧
      ∃ files files' report, usual.Runs linked ["f.json", "g.json"] (files, .ok report) ∧
        usual.run linked ["f.json", "g.json"] = (files', .ok report) ∧
        files.read (usual.outputPath 0) ≠ files'.read (usual.outputPath 0) := by
  have apart (fs₀ : Files) (created : linked.createDirectory usual.directory = .ok fs₀) :
      usual.Apart fs₀ ["f.json", "g.json"] := by
    obtain rfl := Except.ok.inj created
    exact apart_linked
  have first : linkedLastFirst.read (usual.outputPath 0) = .ok (rendered "p") := rfl
  have last : linkedFirstLast.read (usual.outputPath 0) = .ok (rendered "X") := rfl
  refine ⟨rfl, ⟨fun _ => apart_of_created, _, _, _, _, runs_lastFirst, run_crossing,
    by decide +kernel⟩, apart, _, _, _, runs_linked, run_linked, ?_⟩
  rw [first, last]
  exact fun same => rendered_ne (Except.ok.inj same).symm

/-- The order in which the second task ends first is one of those that end alike. -/
theorem runs_same_crossing :
    usual.failFast = false ∧
      (∀ fs₀, oneFormula.createDirectory usual.directory = .ok fs₀ → usual.Apart fs₀ crossing) ∧
      usual.Runs oneFormula crossing (oneFormulaConverted, .ok (crossingReport .notFound)) ∧
      oneFormulaConverted.Same (usual.run oneFormula crossing).1 ∧
      usual.SameResult oneFormula crossing (.ok (crossingReport .notFound))
        (usual.run oneFormula crossing).2 := by
  obtain ⟨_, result, _, unlinked⟩ := runs_same rfl (fun _ => apart_of_created) runs_lastFirst
  exact ⟨rfl, fun _ => apart_of_created, runs_lastFirst, (unlinked unlinked_oneFormula).1, result⟩

end Batch

end FolGraph
