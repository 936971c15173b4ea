import FolGraph.Batch
import FolGraph.Proofs.Files.Elsewhere
import FolGraph.Proofs.Json.Scalar

/-!
# Output files

The output files of a run all lie in one directory, under names that tell their numbers apart. So
where there are no links they are different files (`distinct_of_unlinked`), and none of them is on
the way to another (`not_crosses_outputPath`).
-/

namespace FolGraph

namespace PathParts

/-- The names in a path; a slash at the end adds none. -/
def segments (cs : List Char) : List String :=
  ((split cs).filter (!·.isEmpty)).map String.ofList

theorem split_ne_nil (cs : List Char) : split cs ≠ [] := by
  cases cs with
  | nil => simp [split]
  | cons c cs =>
    rw [split]
    split
    · simp
    · split <;> simp

theorem split_append_slash (cs ds : List Char) :
    split (cs ++ '/' :: ds) = split cs ++ split ds := by
  induction cs with
  | nil => simp [split]
  | cons c cs ih =>
    rw [List.cons_append, split, split, ih]
    by_cases slash : c = '/'
    · rw [if_pos slash, if_pos slash, List.cons_append]
    · rw [if_neg slash, if_neg slash]
      cases names : split cs with
      | nil => exact absurd names (split_ne_nil cs)
      | cons name rest => rfl

theorem split_of_whole {cs : List Char} (whole : '/' ∉ cs) : split cs = [cs] := by
  induction cs with
  | nil => rfl
  | cons c cs ih =>
    rw [List.mem_cons, not_or] at whole
    rw [split, if_neg (Ne.symm whole.1), ih whole.2]

theorem segments_append_slash (cs ds : List Char) :
    segments (cs ++ '/' :: ds) = segments cs ++ segments ds := by
  rw [segments, split_append_slash, List.filter_append, List.map_append, segments, segments]

theorem segments_of_whole {name : String} (named : name ≠ "") (whole : '/' ∉ name.toList) :
    segments name.toList = [name] := by
  have occupied : name.toList ≠ [] := by simpa using named
  simp [segments, split_of_whole whole, occupied]

theorem ofString_of_open {path : String} (unclosed : path.toList.getLast? ≠ some '/') :
    ofString path = ⟨path.toList.head? == some '/', segments path.toList⟩ := by
  have unclosed : (path.toList.getLast? == some '/') = false := by simpa using unclosed
  simp only [ofString, segments, unclosed, Bool.false_eq_true, if_false]

/-- A name stands alone in the empty directory, else after one slash that ends the directory. -/
theorem join_cases (directory name : String) :
    directory = "" ∧ join directory name = name ∨
      ∃ front, (join directory name).toList = front ++ '/' :: name.toList ∧
        segments directory.toList = segments front ∧
        directory.toList.head? = (front ++ ['/']).head? := by
  by_cases here : directory = ""
  · subst here
    exact Or.inl ⟨rfl, by simp [join]⟩
  right
  have below : directory.toList ≠ [] := by simpa using here
  by_cases closed : directory.toList.getLast? = some '/'
  · obtain ⟨front, chars⟩ := List.getLast?_eq_some_iff.mp closed
    refine ⟨front, by simp [join, chars], ?_, by rw [chars]⟩
    rw [chars, segments_append_slash]
    simp [segments, split]
  · refine ⟨directory.toList, by simp [join, here, closed], rfl, ?_⟩
    obtain ⟨c, cs, chars⟩ := List.exists_cons_of_ne_nil below
    rw [chars]
    rfl

/-- A name within a directory comes after the names of the directory. -/
theorem ofString_join {directory name : String} (named : name ≠ "") (whole : '/' ∉ name.toList) :
    ofString (join directory name) =
      ⟨directory.toList.head? == some '/', segments directory.toList ++ [name]⟩ := by
  have occupied : name.toList ≠ [] := by simpa using named
  have last : name.toList.getLast? ≠ some '/' := fun slash => whole (List.mem_of_getLast? slash)
  have head : name.toList.head? ≠ some '/' := fun slash => whole (List.mem_of_head? slash)
  have alone := segments_of_whole named whole
  rcases join_cases directory name with ⟨rfl, joined⟩ | ⟨front, joined, names, start⟩
  · rw [joined, ofString_of_open last, alone]
    simp [head, segments, split]
  · have unclosed : (join directory name).toList.getLast? ≠ some '/' := by
      rw [joined, List.append_cons, List.getLast?_append]
      rwa [List.getLast?_eq_some_getLast occupied] at last ⊢
    rw [ofString_of_open unclosed, joined, segments_append_slash, alone, names, start]
    cases front <;> rfl

end PathParts

namespace Batch

/-- The name of the output file for the formula at a position. -/
def fileName (b : Batch) (index : Nat) : String :=
  toString index ++ "." ++ Export.extension b.conversion.format b.conversion.encoding

theorem toList_fileName (b : Batch) (index : Nat) :
    (b.fileName index).toList = Nat.toDigits 10 index ++
      '.' :: (Export.extension b.conversion.format b.conversion.encoding).toList := by
  simp [fileName]

theorem fileName_injective {b : Batch} {i j : Nat} (h : b.fileName i = b.fileName j) : i = j := by
  have digits := congrArg String.toList h
  rw [toList_fileName, toList_fileName, List.append_left_inj] at digits
  exact Json.toDigits_injective digits

theorem slash_notMem_fileName (b : Batch) (index : Nat) : '/' ∉ (b.fileName index).toList := by
  rw [toList_fileName, List.mem_append]
  rintro (digit | rest)
  · have := Nat.isDigit_of_mem_toDigits (by decide) (by decide) digit
    cases this
  · generalize b.conversion.format = format, b.conversion.encoding = encoding at rest
    revert rest
    cases format <;> cases encoding <;> decide

theorem fileName_ne_empty (b : Batch) (index : Nat) : b.fileName index ≠ "" := by
  intro empty
  have chars := congrArg String.toList empty
  rw [toList_fileName] at chars
  simp at chars

/-- The name is no dot and no pair of dots, for a digit stands before its dot. -/
theorem entryAt_fileName (b : Batch) (index : Nat) (d : Location) :
    Files.entryAt d (b.fileName index) = d ++ [b.fileName index] := by
  obtain ⟨c, cs, digits⟩ := List.exists_cons_of_ne_nil (Nat.toDigits_ne_nil (b := 10) (n := index))
  have digit : c.isDigit = true :=
    Nat.isDigit_of_mem_toDigits (by decide) (by decide) (digits ▸ List.mem_cons_self)
  have dotted (name : String) (dot : name.toList.head? = some '.') : b.fileName index ≠ name := by
    rintro rfl
    rw [toList_fileName, digits] at dot
    cases dot
    cases digit
  simp [Files.entryAt, fileName_ne_empty b index, dotted "." rfl, dotted ".." rfl]

/-- The parts of the path of an output file. -/
def outputParts (b : Batch) (index : Nat) : PathParts :=
  ⟨b.directory.toList.head? == some '/',
    PathParts.segments b.directory.toList ++ [b.fileName index]⟩

theorem parts_outputPath {b : Batch} {index : Nat} {p : PathParts}
    (h : Files.parts (b.outputPath index) = .ok p) : p = b.outputParts index := by
  unfold Files.parts at h
  repeat' split at h
  all_goals cases h
  exact PathParts.ofString_join (fileName_ne_empty b index) (slash_notMem_fileName b index)

theorem outputPath_ne_empty (b : Batch) (index : Nat) : b.outputPath index ≠ "" := by
  intro empty
  have chars : (b.outputPath index).toList = [] := by rw [empty]; rfl
  rcases PathParts.join_cases b.directory (b.fileName index) with ⟨_, joined⟩ | ⟨front, joined, _⟩
  · have named : (b.fileName index).toList = [] := by rw [← joined]; exact chars
    simp [fileName_ne_empty b index] at named
  · have named : front ++ '/' :: (b.fileName index).toList = [] := joined.symm.trans chars
    simp at named

/-- The places of the output files for the first formulas. -/
def outputPlaces (b : Batch) (fs : Files) (count : Nat) : Set Location :=
  fun l => ∃ i < count, fs.place (b.outputPath i) = .ok l

/-- No other output goes to the file that an output goes to. -/
def Own (b : Batch) (fs : Files) (count index : Nat) : Prop :=
  ∀ j < count, fs.SameFile (b.outputPath index) (b.outputPath j) → index = j

/-- The outputs for the first formulas are different files. -/
def Distinct (b : Batch) (fs : Files) (count : Nat) : Prop :=
  ∀ i < count, b.Own fs count i

instance (b : Batch) (fs : Files) (count index : Nat) : Decidable (b.Own fs count index) :=
  inferInstanceAs
    (Decidable (∀ j < count, fs.SameFile (b.outputPath index) (b.outputPath j) → index = j))

instance (b : Batch) (fs : Files) (count : Nat) : Decidable (b.Distinct fs count) :=
  inferInstanceAs (Decidable (∀ i < count, b.Own fs count i))

/-! ## Outputs without links -/

section
variable {b : Batch} {fs : Files} {i j : Nat} {l : Location}

/-- The place of an output is a name in the directory that the path of the directory leads to. -/
theorem place_outputPath (unlinked : fs.Unlinked) (h : fs.place (b.outputPath i) = .ok l) :
    ∃ d, fs.walk false Files.maxStretches (fs.start (b.outputParts i))
        (PathParts.segments b.directory.toList) = .ok d ∧
      fs.stored? d = some .directory ∧ l = d ++ [b.fileName i] := by
  obtain ⟨p, accepted, walked⟩ := bind_eq_ok.mp h
  obtain rfl := parts_outputPath accepted
  rw [outputParts, Files.maxStretches, unlinked.walk_append] at walked
  obtain ⟨d, led, last⟩ := bind_eq_ok.mp walked
  obtain ⟨directory, _, _, next⟩ := Files.walk_cons_eq_ok.mp last
  refine ⟨d, led, directory, ?_⟩
  cases next with
  | link there => exact absurd there (unlinked.stored?_ne _ _)
  | entry _ _ rest =>
    obtain rfl := Except.ok.inj rest
    exact entryAt_fileName b i d
  | nothing _ _ here => rw [here, entryAt_fileName]

/-- Different outputs never share a place. -/
theorem outputPath_injective (unlinked : fs.Unlinked) (hi : fs.place (b.outputPath i) = .ok l)
    (hj : fs.place (b.outputPath j) = .ok l) : i = j := by
  obtain ⟨d, _, _, rfl⟩ := place_outputPath unlinked hi
  obtain ⟨d', _, _, same⟩ := place_outputPath unlinked hj
  exact fileName_injective (List.append_singleton_inj.mp same).2

theorem distinct_of_unlinked (unlinked : fs.Unlinked) (b : Batch) (count : Nat) :
    b.Distinct fs count := by
  rintro i _ j _ ⟨l, l', hi, hj, shared⟩
  obtain rfl := unlinked.single shared
  exact outputPath_injective unlinked hi hj

/-- If an output has a place, the directory of the outputs is there, so nothing is missing on the
way to another. -/
theorem not_crosses_outputPath (unlinked : fs.Unlinked) (b : Batch) (count i : Nat) :
    ¬fs.Crosses (b.outputPlaces fs count) (b.outputPath i) := by
  rintro ⟨missing, _, _, j, _, placed⟩
  obtain ⟨d, led, directory, _⟩ := place_outputPath unlinked placed
  cases accepted : Files.parts (b.outputPath i) with
  | error e =>
    rw [Files.place, accepted] at missing
    obtain rfl := Except.error.inj missing
    have named : (b.outputPath i).isEmpty = false := by
      simpa using outputPath_ne_empty b i
    unfold Files.parts at accepted
    rw [named] at accepted
    repeat' split at accepted
    all_goals cases accepted
    contradiction
  | ok p =>
    obtain rfl := parts_outputPath accepted
    have start : fs.start (b.outputParts i) = fs.start (b.outputParts j) := rfl
    have names : (b.outputParts i).names =
        PathParts.segments b.directory.toList ++ [b.fileName i] := rfl
    simp only [Files.place, accepted, bind, Except.bind] at missing
    rw [start, names, Files.maxStretches, unlinked.walk_append] at missing
    rw [Files.maxStretches] at led
    rw [led] at missing
    exact unlinked.walk_singleton_ne directory (b.fileName i) missing

end

end Batch

end FolGraph
