import FolGraph.Proofs.Batch.Interleaving

/-!
# Isolated tasks

Whatever order the tasks of a run take, each of them ends as it does alone, and the files differ
from those at the start by the outputs that have been written (`Fits.step`, `Fits.steps`). This
takes that no formula is read from an output (`Apart`). An output may lie on the way of a path that
leads nowhere; all that depends on the order then is why a file could not be read or written. If two
outputs go to one file, it holds what was written last.
-/

namespace FolGraph.Batch

/-- No formula is read from a file that an output goes to. -/
def Apart (b : Batch) (fs : Files) (paths : List String) : Prop :=
  ∀ path ∈ paths, ∀ i < paths.length, ¬fs.SameFile path (b.outputPath i)

instance (b : Batch) (fs : Files) (paths : List String) : Decidable (b.Apart fs paths) :=
  inferInstanceAs
    (Decidable (∀ path ∈ paths, ∀ i < paths.length, ¬fs.SameFile path (b.outputPath i)))

/-- What becomes of a formula alone: the place and the contents of its output, or why there is
none. -/
def alone (b : Batch) (fs : Files) (index : Nat) (path : String) :
    Except FormulaError (Location × ByteArray) := do
  let contents ← b.produce fs path
  match fs.writePlace (b.outputPath index) with
  | .ok l => .ok (l, contents)
  | .error e => .error (.unwritable (b.outputPath index) e)

/-- Why a path leads nowhere: nothing lies where it leads on, or a file does. -/
inductive NoWay : FileError → Prop
  | missing : NoWay .notFound
  | blocked : NoWay .notADirectory

/-- Causes that are the same, or that depend on whether an output has been written on the way to the
formula or to its own output. -/
inductive SameCause (b : Batch) (fs : Files) (count index : Nat) (path : String) :
    FormulaError → FormulaError → Prop
  | same (e : FormulaError) : SameCause b fs count index path e e
  | reading {cause cause' : FileError} (crosses : fs.Crosses (b.outputPlaces fs count) path)
      (noWay : NoWay cause) (noWay' : NoWay cause') :
      SameCause b fs count index path (.load (.unreadableFormula path cause))
        (.load (.unreadableFormula path cause'))
  | writing {cause cause' : FileError}
      (crosses : fs.Crosses (b.outputPlaces fs count) (b.outputPath index))
      (noWay : NoWay cause) (noWay' : NoWay cause') :
      SameCause b fs count index path (.unwritable (b.outputPath index) cause)
        (.unwritable (b.outputPath index) cause')

/-- A phase that a task may be in, by what becomes of its formula alone. -/
inductive Phase.Fits (b : Batch) (fs : Files) (count index : Nat) (path : String) : Phase → Prop
  | waiting : Phase.Fits b fs count index path .waiting
  | loaded {f : Formula} (load : fs.loadFormula path = .ok f) :
      Phase.Fits b fs count index path (.loaded f)
  | converted {contents : ByteArray} (produced : b.produce fs path = .ok contents) :
      Phase.Fits b fs count index path (.converted contents)
  | written {l : Location} {contents : ByteArray}
      (alone : b.alone fs index path = .ok (l, contents)) :
      Phase.Fits b fs count index path (.finished (.ok ()))
  | failed {e e' : FormulaError} (alone : b.alone fs index path = .error e)
      (same : b.SameCause fs count index path e e') :
      Phase.Fits b fs count index path (.finished (.error e'))

/-- The task at a position has written its output. -/
structure Written (b : Batch) (fs : Files) (paths : List String) (s : State) (index : Nat)
    (l : Location) (contents : ByteArray) (path : String) : Prop where
  named : paths[index]? = some path
  finished : s.phases[index]? = some (.finished (.ok ()))
  alone : b.alone fs index path = .ok (l, contents)

/-- The places of the outputs that have been written. -/
def writtenPlaces (b : Batch) (fs : Files) (paths : List String) (s : State) : Set Location :=
  fun l => ∃ i contents path, Written b fs paths s i l contents path

/-- A state that can be reached from the files at the start: what each task has done so far is what
it does alone, and the files have changed by the outputs that were written. -/
structure Fits (b : Batch) (fs : Files) (paths : List String) (s : State) : Prop where
  length : s.phases.length = paths.length
  phase : ∀ {i path} {phase : Phase}, paths[i]? = some path → s.phases[i]? = some phase →
    phase.Fits b fs paths.length i path
  written : ∀ {i l contents path}, Written b fs paths s i l contents path →
    b.Own fs paths.length i → s.files.find? l = some (.file contents)
  changed : Files.Puts (b.writtenPlaces fs paths s) fs s.files

section
variable {b : Batch} {fs : Files} {paths : List String} {s s' : State} {index i j count : Nat}
  {path : String} {l : Location} {contents : ByteArray} {e e' e'' : FormulaError}

theorem SameCause.symm (h : b.SameCause fs count index path e e') :
    b.SameCause fs count index path e' e := by
  cases h with
  | same => exact .same e
  | reading crosses noWay noWay' => exact .reading crosses noWay' noWay
  | writing crosses noWay noWay' => exact .writing crosses noWay' noWay

theorem SameCause.trans (h : b.SameCause fs count index path e e')
    (h' : b.SameCause fs count index path e' e'') : b.SameCause fs count index path e e'' := by
  cases h with
  | same => exact h'
  | reading crosses noWay noWay' =>
    cases h' with
    | same => exact .reading crosses noWay noWay'
    | reading _ _ noWay'' => exact .reading crosses noWay noWay''
  | writing crosses noWay noWay' =>
    cases h' with
    | same => exact .writing crosses noWay noWay'
    | writing _ _ noWay'' => exact .writing crosses noWay noWay''

theorem produce_eq_ok : b.produce fs path = .ok contents ↔
    ∃ f, fs.loadFormula path = .ok f ∧ b.conversion.convert f = .ok contents := by
  rw [produce]
  cases fs.loadFormula path with
  | error e => simp
  | ok f => cases convert : b.conversion.convert f <;> simp [convert]

theorem alone_eq_ok : b.alone fs index path = .ok (l, contents) ↔
    b.produce fs path = .ok contents ∧ fs.writePlace (b.outputPath index) = .ok l := by
  rw [alone, bind_eq_ok]
  cases fs.writePlace (b.outputPath index) <;> simp [and_comm]

theorem alone_of_load {cause : LoadError} (load : fs.loadFormula path = .error cause) :
    b.alone fs index path = .error (.load cause) := by
  simp only [alone, produce, load, bind, Except.bind]

theorem alone_of_convert {f : Formula} {cause : VerifyError} (load : fs.loadFormula path = .ok f)
    (refused : b.conversion.convert f = .error cause) :
    b.alone fs index path = .error (.verify cause) := by
  simp only [alone, produce, load, refused, bind, Except.bind]

theorem alone_of_writePlace {cause : FileError} (produced : b.produce fs path = .ok contents)
    (unwritable : fs.writePlace (b.outputPath index) = .error cause) :
    b.alone fs index path = .error (.unwritable (b.outputPath index) cause) := by
  simp only [alone, produced, unwritable, bind, Except.bind]

theorem place_of_alone (h : b.alone fs index path = .ok (l, contents)) :
    fs.place (b.outputPath index) = .ok l :=
  (Files.place_of_writePlace (alone_eq_ok.mp h).2).1

/-- No other task writes to the file of an output that goes to a file of its own. -/
theorem Written.index_eq (own : b.Own fs paths.length j) {m : Location}
    (placed : fs.place (b.outputPath j) = .ok m) (written : Written b fs paths s i l contents path)
    (shared : fs.Shares m l) : j = i :=
  own i (List.getElem?_eq_some_iff.mp written.named).1
    ⟨m, l, placed, place_of_alone written.alone, shared⟩

theorem writtenPlaces_subset : b.writtenPlaces fs paths s ⊆ b.outputPlaces fs paths.length :=
  fun _ ⟨i, _, _, written⟩ =>
    ⟨i, (List.getElem?_eq_some_iff.mp written.named).1, place_of_alone written.alone⟩

theorem Fits.puts (fits : Fits b fs paths s) :
    Files.Puts (b.outputPlaces fs paths.length) fs s.files :=
  fits.changed.mono writtenPlaces_subset

/-- The phase of each task fits if it did before and the new one fits. -/
theorem Fits.phase_set (fits : Fits b fs paths s) (named : paths[index]? = some path)
    {next : Phase} (fitting : next.Fits b fs paths.length index path) {phase : Phase}
    {path' : String} (named' : paths[i]? = some path')
    (reached : (s.phases.set index next)[i]? = some phase) :
    phase.Fits b fs paths.length i path' := by
  by_cases here : index = i
  · subst here
    obtain rfl := Option.some.inj (named.symm.trans named')
    rw [List.getElem?_set_self'] at reached
    obtain ⟨_, _, rfl⟩ := Option.map_eq_some_iff.mp reached
    exact fitting
  · rw [List.getElem?_set_ne here] at reached
    exact fits.phase named' reached

/-- A step that writes nothing. -/
theorem Fits.set (fits : Fits b fs paths s) {phase next : Phase}
    (named : paths[index]? = some path) (reached : s.phases[index]? = some phase)
    (before : phase ≠ .finished (.ok ())) (after : next ≠ .finished (.ok ()))
    (fitting : next.Fits b fs paths.length index path) :
    Fits b fs paths ⟨s.files, s.phases.set index next⟩ := by
  have same (i : Nat) : (s.phases.set index next)[i]? = some (.finished (.ok ())) ↔
      s.phases[i]? = some (.finished (.ok ())) := by
    by_cases here : index = i
    · subst here
      rw [List.getElem?_set_self', reached]
      simp [before, after]
    · rw [List.getElem?_set_ne here]
  have written (i : Nat) (l : Location) (contents : ByteArray) (path : String) :
      Written b fs paths ⟨s.files, s.phases.set index next⟩ i l contents path ↔
        Written b fs paths s i l contents path :=
    ⟨fun h => ⟨h.named, (same i).mp h.finished, h.alone⟩,
      fun h => ⟨h.named, (same i).mpr h.finished, h.alone⟩⟩
  have places : b.writtenPlaces fs paths ⟨s.files, s.phases.set index next⟩ =
      b.writtenPlaces fs paths s := by
    ext l
    exact exists_congr fun i => exists_congr fun contents => exists_congr fun path =>
      written i l contents path
  exact
    { length := by rw [List.length_set, fits.length]
      phase := fits.phase_set named fitting
      written := fun h own => fits.written ((written _ _ _ _).mp h) own
      changed := places ▸ fits.changed }

/-- A step that writes an output. -/
theorem Fits.put (fits : Fits b fs paths s) {phase : Phase} (named : paths[index]? = some path)
    (reached : s.phases[index]? = some phase) (before : phase ≠ .finished (.ok ()))
    (alone : b.alone fs index path = .ok (l, contents))
    (place : s.files.writePlace (b.outputPath index) = .ok l) :
    Fits b fs paths ⟨s.files.putFile l contents,
      s.phases.set index (.finished (.ok ()))⟩ := by
  have takes := (Files.place_of_writePlace place).2
  have last : Written b fs paths ⟨s.files.putFile l contents,
      s.phases.set index (.finished (.ok ()))⟩ index l contents path := by
    refine ⟨named, ?_, alone⟩
    rw [List.getElem?_set_self', reached]
    rfl
  refine ⟨by rw [List.length_set, fits.length], fits.phase_set named (.written alone),
    fun {j m contents' path'} written own => ?_, ?_⟩
  · rw [Files.find?_putFile _ takes.ne_nil]
    by_cases here : index = j
    · subst here
      obtain rfl := Option.some.inj (named.symm.trans written.named)
      obtain ⟨rfl, rfl⟩ := Prod.mk.inj (Except.ok.inj (alone.symm.trans written.alone))
      exact if_pos (.refl _ _)
    · have earlier : Written b fs paths s j m contents' path' :=
        ⟨written.named, by simpa only [List.getElem?_set_ne here] using written.finished,
          written.alone⟩
      have apart : ¬s.files.Shares m l := fun shared =>
        here (last.index_eq own (place_of_alone written.alone)
          ((fits.changed.shares m l).mp shared)).symm
      rw [if_neg apart]
      exact fits.written earlier own
  · refine (fits.changed.trans (Files.puts_putFile takes contents)).mono ?_
    rintro m (⟨j, contents', path', earlier⟩ | rfl)
    · have here : index ≠ j := by
        rintro rfl
        exact before (Option.some.inj (reached.symm.trans earlier.finished))
      exact ⟨j, contents', path', earlier.named,
        by simpa only [List.getElem?_set_ne here] using earlier.finished, earlier.alone⟩
    · exact ⟨index, contents, path, last⟩

theorem Apart.not_shares (apart : b.Apart fs paths) (named : paths[index]? = some path)
    (placed : fs.place path = .ok l) :
    ∀ m ∈ b.outputPlaces fs paths.length, ¬fs.Shares l m :=
  fun m ⟨i, inside, output⟩ shared =>
    apart path (List.mem_of_getElem? named) i inside ⟨l, m, placed, output, shared⟩

/-- Each step of a task does what the task does alone. -/
theorem Fits.step (apart : b.Apart fs paths) (step : b.Step paths s s')
    (fits : Fits b fs paths s) : Fits b fs paths s' := by
  cases step with
  | @advance index path phase named reached unfinished =>
    cases fits.phase named reached with
    | waiting =>
      have read := fits.puts.loadFormula_cases fun l => apart.not_shares named
      rw [advance]
      cases load : s.files.loadFormula path with
      | ok f =>
        rcases read with same | ⟨_, _, failed⟩
        · exact fits.set named reached (unfinished _) (by simp) (.loaded (same.symm.trans load))
        · rw [load] at failed
          cases failed
      | error e =>
        refine fits.set named reached (unfinished _) (by simp) ?_
        rcases read with same | ⟨crosses, missing, blocked⟩
        · exact .failed (alone_of_load (same.symm.trans load)) (.same _)
        · rw [load] at blocked
          cases blocked
          exact .failed (alone_of_load missing) (.reading crosses .missing .blocked)
    | @loaded f load =>
      rw [advance]
      cases convert : b.conversion.convert f with
      | ok contents =>
        exact fits.set named reached (unfinished _) (by simp)
          (.converted (produce_eq_ok.mpr ⟨f, load, convert⟩))
      | error e =>
        exact fits.set named reached (unfinished _) (by simp)
          (.failed (alone_of_convert load convert) (.same _))
    | @converted contents produced =>
      have write := fits.puts.writePlace_cases (b.outputPath index)
      rw [advance, Files.write_eq]
      cases place : s.files.writePlace (b.outputPath index) with
      | ok l =>
        rcases write with same | ⟨_, _, failed⟩
        · exact fits.put named reached (unfinished _)
            (alone_eq_ok.mpr ⟨produced, same.symm.trans place⟩) place
        · rw [place] at failed
          cases failed
      | error e =>
        simp only [Except.map]
        refine fits.set named reached (unfinished _) (by simp) ?_
        rcases write with same | ⟨crosses, missing, blocked⟩
        · exact .failed (alone_of_writePlace produced (same.symm.trans place)) (.same _)
        · rw [place] at blocked
          cases blocked
          exact .failed (alone_of_writePlace produced missing) (.writing crosses .missing .blocked)
    | written | failed => exact absurd rfl (unfinished _)

theorem Fits.steps (apart : b.Apart fs paths) (steps : Relation.ReflTransGen (b.Step paths) s s')
    (fits : Fits b fs paths s) : Fits b fs paths s' := by
  induction steps with
  | refl => exact fits
  | tail _ step ih => exact ih.step apart step

end

end FolGraph.Batch
