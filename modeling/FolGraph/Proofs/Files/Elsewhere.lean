import FolGraph.Load
import FolGraph.Proofs.Files.Paths
import Mathlib.Data.Set.Insert

/-!
# Files put elsewhere

Reading and writing depend on what lies at the places that a path passes. Files that are put
somewhere else do not matter, and a file that is put on the way of a path can only turn one failure
into another (`Puts.loadFormula_cases`, `Puts.writePlace_cases`).
-/

namespace FolGraph

namespace Files

/-- Files that differ from others at most in files that were written at some of the given places:
new files where nothing lay, and new contents at all places that share one of these. -/
structure Puts (places : Set Location) (fs fs' : Files) : Prop where
  workingDirectory : fs'.workingDirectory = fs.workingDirectory
  stored : ∀ l, fs'.stored? l = fs.stored? l ∨
    l ∈ places ∧ fs.stored? l = none ∧ ∃ n, fs'.stored? l = some (.file n)
  shares : ∀ l m, fs'.Shares l m ↔ fs.Shares l m
  kept : ∀ l, (∀ m ∈ places, ¬fs.Shares l m) → fs'.find? l = fs.find? l

/-- The path leads nowhere, but passes one of the places. -/
def Crosses (fs : Files) (places : Set Location) (path : String) : Prop :=
  fs.place path = .error .notFound ∧ ∃ l ∈ fs.passes path, l ∈ places

section
variable {places places' : Set Location} {fs fs' fs'' : Files} {creating : Bool} {l m : Location}
  {path : String}

theorem Puts.refl (places : Set Location) (fs : Files) : Puts places fs fs :=
  ⟨rfl, fun _ => Or.inl rfl, fun _ _ => Iff.rfl, fun _ _ => rfl⟩

theorem Puts.trans (first : Puts places fs fs') (second : Puts places' fs' fs'') :
    Puts (places ∪ places') fs fs'' where
  workingDirectory := second.workingDirectory.trans first.workingDirectory
  stored l := by
    rcases second.stored l with same | ⟨inside, absent, file⟩
    · rw [same]
      exact (first.stored l).imp_right fun ⟨inside, rest⟩ => ⟨Or.inl inside, rest⟩
    · rcases first.stored l with same | ⟨_, _, n, file'⟩
      · exact Or.inr ⟨Or.inr inside, same ▸ absent, file⟩
      · rw [file'] at absent
        cases absent
  shares l m := (second.shares l m).trans (first.shares l m)
  kept l apart := by
    rw [second.kept l fun m inside shared => apart m (Or.inr inside) ((first.shares l m).mp shared),
      first.kept l fun m inside => apart m (Or.inl inside)]

theorem Puts.mono (puts : Puts places fs fs') (subset : places ⊆ places') :
    Puts places' fs fs' where
  workingDirectory := puts.workingDirectory
  stored l := (puts.stored l).imp_right fun ⟨inside, rest⟩ => ⟨subset inside, rest⟩
  shares := puts.shares
  kept l apart := puts.kept l fun m inside => apart m (subset inside)

/-- Writing a file changes what is found at its own place and those that share it. -/
theorem puts_putFile (takes : fs.TakesFile l) (contents : ByteArray) :
    Puts {l} fs (fs.putFile l contents) where
  workingDirectory := rfl
  stored m := by
    rw [stored?_putFile fs takes.ne_nil]
    by_cases here : m = l
    · subst here
      rcases takes with none | ⟨n, file⟩
      · exact Or.inr ⟨rfl, none, _, if_pos rfl⟩
      · rw [if_pos rfl, number?_eq_some.mpr file]
        exact Or.inl file.symm
    · exact Or.inl (if_neg here)
  shares := shares_putFile fs takes.ne_nil contents
  kept m apart := by rw [find?_putFile fs takes.ne_nil, if_neg (apart l rfl)]

theorem Puts.stored?_eq (puts : Puts places fs fs') (apart : l ∉ places) :
    fs'.stored? l = fs.stored? l :=
  (puts.stored l).resolve_right fun h => apart h.1

/-- Where a file lay there is a file still, maybe with other contents. -/
theorem Puts.exists_file (puts : Puts places fs fs') {contents : ByteArray}
    (file : fs.find? l = some (.file contents)) :
    ∃ contents', fs'.find? l = some (.file contents') := by
  obtain ⟨n, stored, _⟩ := find?_eq_file.mp file
  rcases puts.stored l with same | ⟨_, absent, _⟩
  · exact ⟨_, find?_eq_file.mpr ⟨n, same.trans stored, rfl⟩⟩
  · rw [absent] at stored
    cases stored

/-- Following names ends as before, or it ended at a missing place where there is a file now, from
which the names cannot lead on. -/
theorem Puts.walk_cases (puts : Puts places fs fs') (creating : Bool) (stretches : Nat)
    (l : Location) (names : List String) :
    fs'.walk creating stretches l names = fs.walk creating stretches l names ∨
      (∃ m ∈ fs.trail stretches l names, m ∈ places) ∧
        fs.walk creating stretches l names = .error .notFound ∧
        fs'.walk creating stretches l names = .error .notADirectory := by
  induction stretches generalizing l names with
  | zero => exact Or.inl rfl
  | succ stretches ih =>
    induction names generalizing l with
    | nil => exact Or.inl rfl
    | cons name names ihNames =>
      rcases puts.stored l with here | ⟨inside, absent, n, file⟩
      case inr =>
        exact Or.inr ⟨⟨l, mem_trail fs stretches l _, inside⟩, walk_cons_of_none absent name names,
          walk_cons_of_file file name names⟩
      simp only [walk, walkWith, trail, trailWith, checkDirectory, here] at ihNames ⊢
      by_cases directory : fs.stored? l = some .directory
      case neg =>
        left
        split
        · exact absurd ‹_› directory
        · rfl
        · rfl
      simp only [directory, bind, Except.bind, if_true]
      by_cases slash : (creating && names == [""]) = true
      · simp [slash]
      by_cases long : 255 < name.utf8ByteSize
      · simp [slash, long]
      simp only [slash, long, Bool.false_eq_true, if_false]
      rcases puts.stored (entryAt l name) with there | ⟨inside, absent, n, file⟩
      · rw [there]
        cases fs.stored? (entryAt l name) with
        | none => exact Or.inl rfl
        | some s =>
          have lift {onward : List Location} :
              (∃ m ∈ onward, m ∈ places) → ∃ m ∈ l :: onward, m ∈ places := by
            rintro ⟨m, passed, inside⟩
            exact ⟨m, List.mem_cons_of_mem l passed, inside⟩
          cases s with
          | file n => exact (ihNames _).imp_right (And.imp_left lift)
          | directory => exact (ihNames _).imp_right (And.imp_left lift)
          | link target =>
            dsimp only
            cases parts target with
            | error e => exact Or.inl rfl
            | ok p => exact (ih _ _).imp_right (And.imp_left lift)
      · simp only [absent, file]
        cases names with
        | nil => exact Or.inl rfl
        | cons next names =>
          exact Or.inr ⟨⟨entryAt l name, by simp, inside⟩, rfl, walk_cons_of_file file next names⟩

theorem Puts.start_eq (puts : Puts places fs fs') (p : PathParts) : fs'.start p = fs.start p := by
  rw [start, start, puts.workingDirectory]

/-- A path leads where it led; whether it leads nowhere for one reason or the other can change if it
crosses one of the places. -/
theorem Puts.place_cases (puts : Puts places fs fs') (path : String) :
    fs'.place path = fs.place path ∨
      fs.Crosses places path ∧ fs'.place path = .error .notADirectory := by
  cases accepted : parts path with
  | error e => exact Or.inl (by simp only [place, accepted, bind, Except.bind])
  | ok p =>
    simp only [Crosses, passes, place, accepted, bind, Except.bind, puts.start_eq]
    refine (puts.walk_cases false maxStretches (fs.start p) p.names).imp_right ?_
    exact fun ⟨passed, missing, blocked⟩ => ⟨⟨missing, passed⟩, blocked⟩

theorem Puts.place_eq_ok_iff (puts : Puts places fs fs') :
    fs'.place path = .ok l ↔ fs.place path = .ok l := by
  rcases puts.place_cases path with same | ⟨⟨missing, _⟩, blocked⟩
  · rw [same]
  · simp [missing, blocked]

theorem Puts.sameFile_iff (puts : Puts places fs fs') {path' : String} :
    fs'.SameFile path path' ↔ fs.SameFile path path' := by
  simp only [SameFile, puts.place_eq_ok_iff, puts.shares]

/-- A file is written where it would have been, or it fails to be for another reason. -/
theorem Puts.writePlace_cases (puts : Puts places fs fs') (path : String) :
    fs'.writePlace path = fs.writePlace path ∨ fs.Crosses places path ∧
      fs.writePlace path = .error .notFound ∧ fs'.writePlace path = .error .notADirectory := by
  cases accepted : parts path with
  | error e => exact Or.inl (by simp only [writePlace, accepted, bind, Except.bind])
  | ok p =>
    simp only [Crosses, passes, place, writePlace, accepted, bind, Except.bind, puts.start_eq]
    rcases puts.walk_cases true maxStretches (fs.start p) p.names with
      same | ⟨passed, missing, blocked⟩
    · left
      rw [same]
      cases fs.walk true maxStretches (fs.start p) p.names with
      | error e => rfl
      | ok l =>
        rcases puts.stored l with there | ⟨_, absent, n, file⟩
        · simp only [there]
        · simp only [absent, file]
    · refine Or.inr ⟨⟨?_, passed⟩, by rw [missing], by rw [blocked]⟩
      rcases fs.walk_creating maxStretches (fs.start p) p.names with same | refused
      · rw [← same, missing]
      · rw [missing] at refused
        cases refused

/-- A file is read as before if its path does not lead to a file that was written; only the failure
changes if the path crosses the place of one. -/
theorem Puts.read_cases (puts : Puts places fs fs')
    (apart : ∀ l, fs.place path = .ok l → ∀ m ∈ places, ¬fs.Shares l m) :
    fs'.read path = fs.read path ∨ fs.Crosses places path ∧
      fs.read path = .error .notFound ∧ fs'.read path = .error .notADirectory := by
  rcases puts.place_cases path with same | ⟨crosses, blocked⟩
  · left
    simp only [read, locate, same]
    cases placed : fs.place path with
    | error e => rfl
    | ok l =>
      have elsewhere := apart l placed
      have there := puts.stored?_eq fun inside => elsewhere l inside (.refl fs l)
      simp only [bind, Except.bind, there]
      cases fs.stored? l with
      | none => rfl
      | some s => simp only [Option.isSome_some, if_true, puts.kept l elsewhere]
  · refine Or.inr ⟨crosses, ?_, ?_⟩
    · simp only [read, locate, crosses.1, bind, Except.bind]
    · simp only [read, locate, blocked, bind, Except.bind]

theorem loadFormula_of_read {cause : FileError} (unread : fs.read path = .error cause) :
    fs.loadFormula path = .error (.unreadableFormula path cause) := by
  simp only [loadFormula, readText, unread, bind, Except.bind]

theorem Puts.loadFormula_cases (puts : Puts places fs fs')
    (apart : ∀ l, fs.place path = .ok l → ∀ m ∈ places, ¬fs.Shares l m) :
    fs'.loadFormula path = fs.loadFormula path ∨ fs.Crosses places path ∧
      fs.loadFormula path = .error (.unreadableFormula path .notFound) ∧
      fs'.loadFormula path = .error (.unreadableFormula path .notADirectory) := by
  rcases puts.read_cases apart with same | ⟨crosses, missing, failed⟩
  · left
    simp only [loadFormula, readText, same]
  · exact Or.inr ⟨crosses, loadFormula_of_read missing, loadFormula_of_read failed⟩

end

end Files

end FolGraph
