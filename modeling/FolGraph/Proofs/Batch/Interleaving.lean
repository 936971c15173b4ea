import FolGraph.Proofs.Batch.Outputs
import Mathlib.Logic.Relation

/-!
# Interleaved runs

A tolerant run has one task for each formula, and the tasks may take their steps in any order: each
reads its formula, converts it and writes its own output file. The report is put together by
position when all tasks have finished. The run that converts one formula after the other is one of
these (`runs_run`).
-/

namespace FolGraph.Batch

/-! ## Tasks -/

/-- How far the work on one formula has come. -/
inductive Phase where
  | waiting
  | loaded (f : Formula)
  | converted (contents : ByteArray)
  | finished (outcome : Except FormulaError Unit)

/-- The next step of a task: reading, converting or writing. -/
def advance (b : Batch) (fs : Files) (index : Nat) (path : String) : Phase → Files × Phase
  | .waiting =>
    match fs.loadFormula path with
    | .ok f => (fs, .loaded f)
    | .error e => (fs, .finished (.error (.load e)))
  | .loaded f =>
    match b.conversion.convert f with
    | .ok contents => (fs, .converted contents)
    | .error e => (fs, .finished (.error (.verify e)))
  | .converted contents =>
    match fs.write (b.outputPath index) contents with
    | .ok fs => (fs, .finished (.ok ()))
    | .error e => (fs, .finished (.error (.unwritable (b.outputPath index) e)))
  | .finished outcome => (fs, .finished outcome)

/-- The files in the midst of a run, and the phase of the task at each position. -/
structure State where
  files : Files
  phases : List Phase

/-- One of the tasks that have not finished takes its next step. -/
inductive Step (b : Batch) (paths : List String) : State → State → Prop
  | advance {s : State} {index : Nat} {path : String} {phase : Phase}
      (named : paths[index]? = some path) (reached : s.phases[index]? = some phase)
      (unfinished : ∀ outcome, phase ≠ .finished outcome) :
      Step b paths s ⟨(b.advance s.files index path phase).1,
        s.phases.set index (b.advance s.files index path phase).2⟩

/-- Adds the outcome at a position to a report. -/
def record (report : Report) (index : Nat) (path : String) : Except FormulaError Unit → Report
  | .ok () => { report with converted := report.converted + 1 }
  | .error cause => { report with failed := report.failed ++ [⟨index, path, cause⟩] }

/-- Adds the outcomes at the positions from one on to a report. -/
def collect (report : Report) (index : Nat) :
    List String → List (Except FormulaError Unit) → Report
  | path :: paths, outcome :: outcomes =>
    collect (record report index path outcome) (index + 1) paths outcomes
  | _, _ => report

/-- The possible outcomes of a tolerant run: the tasks start when the output directory is there, and
take their steps in some order until all have finished. -/
inductive Runs (b : Batch) (fs : Files) (paths : List String) :
    Files × Except BatchError Report → Prop
  | noDirectory {files : Files} {e : FileError}
      (failed : fs.createDirectories b.directory = (files, .error e)) :
      Runs b fs paths (files, .error (.noDirectory b.directory e))
  | finished {fs₀ files : Files} {outcomes : List (Except FormulaError Unit)}
      (created : fs.createDirectories b.directory = (fs₀, .ok ()))
      (steps : Relation.ReflTransGen (b.Step paths)
        ⟨fs₀, List.replicate paths.length .waiting⟩ ⟨files, outcomes.map .finished⟩) :
      Runs b fs paths (files, .ok (collect .empty 0 paths outcomes))

/-! ## One formula after the other -/

/-- The files after a conversion, and what became of its formula. -/
def settle (fs : Files) : Except FormulaError Files → Files × Except FormulaError Unit
  | .ok fs => (fs, .ok ())
  | .error e => (fs, .error e)

theorem runTolerant_cons (b : Batch) (fs : Files) (report : Report) (index : Nat) (path : String)
    (paths : List String) :
    b.runTolerant fs report index (path :: paths) =
      b.runTolerant (settle fs (b.convertFile fs index path)).1
        (record report index path (settle fs (b.convertFile fs index path)).2) (index + 1)
        paths := by
  rw [runTolerant]
  cases b.convertFile fs index path <;> rfl

section
variable {b : Batch} {paths : List String} {s : State} {index : Nat} {path : String}

/-- Converting a file is what its task does in three steps, or in fewer if one of them fails. -/
theorem steps_convertFile (named : paths[index]? = some path)
    (waiting : s.phases[index]? = some .waiting) :
    Relation.ReflTransGen (b.Step paths) s
      ⟨(settle s.files (b.convertFile s.files index path)).1,
        s.phases.set index (.finished (settle s.files (b.convertFile s.files index path)).2)⟩ := by
  have inside : index < s.phases.length := (List.getElem?_eq_some_iff.mp waiting).1
  have first := Step.advance (b := b) named waiting (fun _ => nofun)
  simp only [convertFile, produce]
  cases load : s.files.loadFormula path with
  | error e =>
    simp only [advance, load] at first
    exact .single first
  | ok f =>
    simp only [advance, load] at first
    have second := Step.advance (b := b) (s := ⟨s.files, s.phases.set index (.loaded f)⟩) named
      (List.getElem?_set_self inside) (fun _ => nofun)
    refine .head first ?_
    dsimp only
    cases convert : b.conversion.convert f with
    | error e =>
      simp only [advance, convert, List.set_set] at second
      exact .single second
    | ok contents =>
      simp only [advance, convert, List.set_set] at second
      have third := Step.advance (b := b)
        (s := ⟨s.files, s.phases.set index (.converted contents)⟩) named
        (List.getElem?_set_self inside) (fun _ => nofun)
      refine .head second ?_
      simp only [bind, Except.bind]
      cases write : s.files.write (b.outputPath index) contents with
      | error e =>
        simp only [advance, write, List.set_set] at third
        exact .single third
      | ok fs =>
        simp only [advance, write, List.set_set] at third
        exact .single third

/-- The state when the formulas at the first positions have been dealt with. -/
def State.after (fs : Files) (done : List (Except FormulaError Unit)) (rest : List String) :
    State :=
  ⟨fs, done.map .finished ++ List.replicate rest.length .waiting⟩

theorem steps_runTolerant (b : Batch) {paths : List String} (before rest : List String)
    (split : paths = before ++ rest) (done : List (Except FormulaError Unit))
    (length : done.length = before.length) (fs : Files) (report : Report) :
    ∃ outcomes,
      Relation.ReflTransGen (b.Step paths) (.after fs done rest)
        (.after (b.runTolerant fs report done.length rest).1 (done ++ outcomes) []) ∧
      (b.runTolerant fs report done.length rest).2 = collect report done.length rest outcomes := by
  induction rest generalizing before done fs report with
  | nil => exact ⟨[], by rw [List.append_nil]; exact .refl, rfl⟩
  | cons path rest ih =>
    have named : paths[done.length]? = some path := by rw [length, split]; simp
    have waiting : (State.after fs done (path :: rest)).phases[done.length]? = some .waiting := by
      simp [State.after, List.replicate_succ]
    have task := steps_convertFile (b := b) named waiting
    change Relation.ReflTransGen _ _ (State.mk (settle fs (b.convertFile fs done.length path)).1
      (List.set _ _ (.finished (settle fs (b.convertFile fs done.length path)).2))) at task
    rw [runTolerant_cons]
    generalize settle fs (b.convertFile fs done.length path) = settled at task
    obtain ⟨fs', outcome⟩ := settled
    obtain ⟨outcomes, steps, collected⟩ := ih (before ++ [path])
      (by rw [split, List.append_cons]) (done ++ [outcome]) (by simp [length]) fs'
      (record report done.length path outcome)
    have next : State.mk fs' ((State.after fs done (path :: rest)).phases.set done.length
        (.finished outcome)) = .after fs' (done ++ [outcome]) rest := by
      simp [State.after, List.replicate_succ]
    rw [next] at task
    rw [List.length_append, List.length_singleton] at steps collected
    refine ⟨outcome :: outcomes, ?_, collected⟩
    rw [List.append_cons]
    exact task.trans steps

/-- Converting one formula after the other is one of the orders that the tasks may take. -/
theorem runs_run (b : Batch) (fs : Files) (paths : List String) (tolerant : b.failFast = false) :
    b.Runs fs paths (b.run fs paths) := by
  rw [run]
  split
  case h_1 files e failed => exact .noDirectory failed
  case h_2 fs₀ created =>
    obtain ⟨outcomes, steps, collected⟩ := steps_runTolerant b [] paths rfl [] rfl fs₀
      .empty
    simp only [State.after, List.map_nil, List.nil_append, List.length_nil, List.replicate_zero,
      List.append_nil] at steps collected
    simp only [tolerant, Bool.false_eq_true, if_false, collected]
    exact .finished created steps

end

end FolGraph.Batch
