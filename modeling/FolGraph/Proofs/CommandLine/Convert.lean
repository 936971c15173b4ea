import FolGraph.CommandLine.Run
import FolGraph.Proofs.Batch.FailFast

/-!
# Success of the convert command

The command succeeds when every formula of its list is converted (`exitCode_runConvert`). As a run
that fails fast agrees with a tolerant one, it does not matter for this which of them the command
makes (`failFast_agrees`).
-/

namespace FolGraph

namespace CommandLine

/-- The conversion of a list succeeds when each of its formulas is converted. -/
theorem exitCode_runConvert {fs fs₀ : Files} {s : Settings} {list directory : String}
    {paths : List String} (loaded : fs.loadList list = .ok paths)
    (created : fs.createDirectory directory = .ok fs₀) :
    (runConvert fs s list directory).exitCode = 0 ↔
      ∃ files, (Batch.ofSettings s directory).Converts fs₀ 0 paths files := by
  have converts := Batch.success_iff_converts (b := .ofSettings s directory) created paths
  simp only [← converts, runConvert, Batch.runList, loaded]
  generalize (Batch.ofSettings s directory).run fs paths = ran
  obtain ⟨files, result⟩ := ran
  cases result with
  | error e => simp [Result.failure]
  | ok report => cases success : report.isSuccess <;> simp [success]

/-- Arguments for a conversion are taken over the settings. -/
theorem run_convert {fs : Files} {args : List String} {s : Settings} {config : Option String}
    {list directory : String} {format : Option Export.Format} {encoding : Option Export.Encoding}
    {workers : Option Nat} {failFast verify strict : Bool}
    (request : request? args = some (.run config
      (.convert list directory format encoding workers failFast verify strict)))
    (read : settings fs config = .ok s) : run fs args =
      runConvert fs (override s format encoding workers failFast verify strict) list directory := by
  rw [run, request]
  dsimp only
  rw [read]
  rfl

end CommandLine

namespace Batch

/-- A run that fails fast agrees with the tolerant run from the same files: it reports what the
tolerant run reports if that is a success, and otherwise stops at the first of its failures. So it
plays no part for the success of the command which of the two it makes. -/
theorem failFast_agrees (b : Batch) (fs : Files) (paths : List String) :
    (∀ files report, b.failingFast.run fs paths = (files, .ok report) ↔
      b.tolerant.run fs paths = (files, .ok report) ∧ report.isSuccess = true) ∧
    (∀ files report, b.tolerant.run fs paths = (files, .ok report) →
      report.isSuccess = false →
      ∃ fs₀ stopped failure, fs.createDirectory b.directory = .ok fs₀ ∧
        b.failingFast.run fs paths = (stopped, .error (.formula failure)) ∧
        (BatchError.formula failure).message = "Formula #" ++ toString failure.index ++ " (" ++
          failure.path ++ ") failed: " ++ failure.cause.message ∧
        b.StopsAt fs fs₀ paths failure stopped files report) ∧
    (∀ files error, b.tolerant.run fs paths = (files, .error error) →
      b.failingFast.run fs paths = (files, .error error)) ∧
    ∀ args config list directory format encoding workers failFast verify strict s fs₀,
      CommandLine.request? args = some (.run config
        (.convert list directory format encoding workers failFast verify strict)) →
      CommandLine.settings fs config = .ok s → fs.loadList list = .ok paths →
      fs.createDirectory directory = .ok fs₀ →
      ((CommandLine.run fs args).exitCode = 0 ↔
        ∃ files, (Batch.ofSettings (CommandLine.override s format encoding workers false verify
          strict) directory).tolerant.Converts fs₀ 0 paths files) := by
  refine ⟨?_, ?_, ?_, ?_⟩
  · intro files report
    constructor
    · intro ran
      have success := isSuccess_of_failFast (b := b.failingFast) rfl ran
      exact ⟨run_withMode_of_success ran success false, success⟩
    · rintro ⟨ran, success⟩
      exact run_withMode_of_success ran success true
  · intro files report ran unsuccessful
    obtain ⟨fs₀, stopped, failure, created, ended, stops⟩ := exists_stopsAt ran unsuccessful
    exact ⟨fs₀, stopped, failure, created, ended, rfl, stops⟩
  · intro files error ran
    rcases created : fs.createDirectories b.directory with ⟨fs₀, cause | _⟩
    · rw [run_of_noDirectory (b := b.tolerant) created] at ran
      rw [run_of_noDirectory (b := b.failingFast) created]
      exact ran
    · have there : fs.createDirectories b.tolerant.directory = (fs₀, .ok ()) := created
      rw [run, there] at ran
      cases ran
  · intro args config list directory format encoding workers failFast verify strict s fs₀ request
      read loaded created
    rw [CommandLine.run_convert request read, CommandLine.exitCode_runConvert loaded created]
    constructor
    · rintro ⟨files, converts⟩
      exact ⟨files, converts.withMode false⟩
    · rintro ⟨files, converts⟩
      exact ⟨files, converts.withMode (s.batch.failFast || failFast)⟩

/-- A list whose second path names no file. -/
def interrupted : List String := ["f.json", "gone.json", "f.json"]

def interruptedListed : Files :=
  oneFormula.putFile ["list"] "f.json\ngone.json\n\nf.json\n".toUTF8

def interruptedOpened : Files := interruptedListed.putDirectory ["out"]

/-- The files when the first formula has been converted. -/
def interruptedStopped : Files := interruptedOpened.putFile ["out", "0.json"] (rendered "p")

theorem converts_interrupted :
    usual.Converts interruptedOpened 0 ["f.json"] interruptedStopped := by
  have converted : usual.convertFile interruptedOpened 0 "f.json" = .ok interruptedStopped :=
    convertFile_usual rfl ofJsonText_p rfl
  obtain ⟨f, contents, load, convert, write⟩ := convertFile_eq_ok.mp converted
  exact .cons load convert write (.nil interruptedStopped 1)

/-- The second formula fails, so a run that fails fast stops there and the command fails. -/
theorem failFast_agrees_interrupted :
    CommandLine.request? ["convert", "-l", "list", "-o", "out", "--fail-fast"] =
        some (.run none (.convert "list" "out" none none none true false false)) ∧
      CommandLine.settings interruptedListed none = .ok {} ∧
      interruptedListed.loadList "list" = .ok interrupted ∧
      interruptedListed.createDirectory usual.directory = .ok interruptedOpened ∧
      (∃ files report, usual.tolerant.run interruptedListed interrupted = (files, .ok report) ∧
        report.isSuccess = false ∧
        ∃ stopped cause, usual.failingFast.run interruptedListed interrupted =
            (stopped, .error (.formula ⟨1, "gone.json", cause⟩)) ∧
          usual.StopsAt interruptedListed interruptedOpened interrupted ⟨1, "gone.json", cause⟩
            stopped files report) ∧
      (CommandLine.run interruptedListed
        ["convert", "-l", "list", "-o", "out", "--fail-fast"]).exitCode ≠ 0 := by
  have request : CommandLine.request? ["convert", "-l", "list", "-o", "out", "--fail-fast"] =
      some (.run none (.convert "list" "out" none none none true false false)) := by decide +kernel
  have loaded : interruptedListed.loadList "list" = .ok interrupted := by decide +kernel
  have created : interruptedListed.createDirectory usual.directory = .ok interruptedOpened := rfl
  have missing : interruptedStopped.loadFormula "gone.json" =
      .error (.unreadableFormula "gone.json" .notFound) := Files.loadFormula_of_read rfl
  have failed (b : Batch) : b.convertFile interruptedStopped 1 "gone.json" =
      .error (.load (.unreadableFormula "gone.json" .notFound)) := by
    simp only [convertFile, produce, missing, bind, Except.bind]
  have converts : usual.tolerant.Converts interruptedOpened 0 ["f.json"] interruptedStopped :=
    converts_interrupted.withMode false
  have ran := Converts.run_of_tolerant created converts (failed _) rfl ["f.json"]
  have unsuccessful := isSuccess_eq_false_of_fails created converts (failed _) ran
  obtain ⟨-, stops, -, command⟩ := failFast_agrees usual interruptedListed interrupted
  obtain ⟨fs₀, stopped, failure, created', ended, -, stopsAt⟩ := stops _ _ ran unsuccessful
  obtain rfl := Except.ok.inj (created.symm.trans created')
  have fast := Converts.run_of_failFast (b := usual.failingFast) created
    (converts_interrupted.withMode true) (failed _) rfl ["f.json"]
  obtain ⟨rfl, named⟩ := Prod.mk.inj (fast.symm.trans ended)
  obtain rfl := BatchError.formula.inj (Except.error.inj named)
  refine ⟨request, rfl, loaded, created, ⟨_, _, ran, unsuccessful, _, _, ended, stopsAt⟩, ?_⟩
  intro exits
  obtain ⟨files, all⟩ := (command _ _ _ _ _ _ _ _ _ _ _ _ request rfl loaded created).mp exits
  obtain ⟨report, ran', success⟩ := (success_iff_converts created _ _).mpr all
  obtain ⟨-, ended⟩ := Prod.mk.inj (ran.symm.trans ran')
  obtain rfl := Except.ok.inj ended
  rw [success] at unsuccessful
  cases unsuccessful

end Batch

end FolGraph
