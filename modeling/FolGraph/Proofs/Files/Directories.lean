import FolGraph.Proofs.Files.Paths

/-!
# Directories that are created

Creating a directory takes nothing away, also if it fails: whatever is new afterwards is a directory
where nothing lay, and the path of the directory passes it (`createDirectories_changed`).
-/

namespace FolGraph

namespace Files

/-- Files that differ from others at most in directories where nothing lay. Some of the given names,
counted from the front, lead to each of them. -/
structure Grows (start : Location) (names : List String) (fs fs' : Files) : Prop where
  workingDirectory : fs'.workingDirectory = fs.workingDirectory
  contents : fs'.contents = fs.contents
  changed : ∀ l, fs'.stored? l = fs.stored? l ∨
    fs.stored? l = none ∧ fs'.stored? l = some .directory ∧
      ∃ front, front <+: names ∧ fs'.walk false maxStretches start front = .ok l

/-- Names that become others when dots are added. -/
inductive Undotted : List String → List String → Prop
  | nil : Undotted [] []
  | cons (name : String) {names names' : List String} (rest : Undotted names names') :
      Undotted (name :: names) (name :: names')
  | dot {names names' : List String} (rest : Undotted names names') : Undotted names ("." :: names')

theorem undotted_filter (names : List String) : Undotted (names.filter (· != ".")) names := by
  induction names with
  | nil => exact .nil
  | cons name names ih =>
    by_cases dot : name = "."
    · subst dot
      exact .dot ih
    · rw [List.filter_cons_of_pos (by simp [dot])]
      exact .cons name ih

theorem Undotted.append {names names' : List String} (h : Undotted names names')
    (front : List String) : Undotted (front ++ names) (front ++ names') := by
  induction front with
  | nil => exact h
  | cons name front ih => exact .cons name ih

section
variable {fs fs' fs'' : Files} {creating : Bool} {stretches : Nat} {start l m d : Location}
  {name : String} {names names' front : List String}

/-! ## Ways to directories -/

/-- Names lead to a directory from directories only. -/
theorem directory_of_walk (directory : fs.stored? m = some .directory)
    (h : fs.walk creating stretches l names = .ok m) : fs.stored? l = some .directory := by
  cases stretches with
  | zero => cases h
  | succ stretches =>
    cases names with
    | nil =>
      obtain rfl := Except.ok.inj h
      exact directory
    | cons name names => exact (walk_cons_eq_ok.mp h).1

/-- Dots do not matter on the way to a directory. -/
theorem Undotted.walk (undotted : Undotted names names')
    (directory : fs.stored? m = some .directory)
    (h : fs.walk false stretches l names = .ok m) : fs.walk false stretches l names' = .ok m := by
  induction stretches generalizing l names names' with
  | zero => cases h
  | succ stretches ih =>
    induction undotted generalizing l with
    | nil => exact h
    | cons name rest ihNames =>
      obtain ⟨here, _, short, next⟩ := walk_cons_eq_ok.mp h
      refine walk_cons_eq_ok.mpr ⟨here, rfl, short, ?_⟩
      cases next with
      | link there accepted led => exact .link there accepted (ih (rest.append _) led)
      | entry there solid led => exact .entry there solid (ihNames led)
      | nothing there last at_ =>
        rw [at_, there] at directory
        cases directory
    | dot rest ihNames =>
      have here := directory_of_walk directory h
      refine walk_cons_eq_ok.mpr ⟨here, rfl, by decide, .entry here nofun ?_⟩
      exact ihNames h

/-- Names that lead to a directory lead on to what lies in it. -/
theorem walk_concat {s : Stored} (h : fs.walk false stretches l front = .ok d)
    (directory : fs.stored? d = some .directory) (short : name.utf8ByteSize ≤ 255)
    (there : fs.stored? (entryAt d name) = some s) (solid : ∀ target, s ≠ .link target) :
    fs.walk false stretches l (front ++ [name]) = .ok (entryAt d name) := by
  induction stretches generalizing l front with
  | zero => cases h
  | succ stretches ih =>
    induction front generalizing l with
    | nil =>
      obtain rfl := Except.ok.inj h
      exact walk_cons_eq_ok.mpr ⟨directory, rfl, short, .entry there solid rfl⟩
    | cons first front ihFront =>
      obtain ⟨here, _, fits, next⟩ := walk_cons_eq_ok.mp h
      refine walk_cons_eq_ok.mpr ⟨here, rfl, fits, ?_⟩
      cases next with
      | link linked accepted led =>
        refine .link linked accepted ?_
        have further := ih led
        rwa [List.append_assoc] at further
      | entry present plain led => exact .entry present plain (ihFront led)
      | nothing absent last at_ =>
        rw [at_, absent] at directory
        cases directory

/-! ## Growing -/

theorem Grows.refl (start : Location) (names : List String) (fs : Files) :
    Grows start names fs fs :=
  ⟨rfl, rfl, fun _ => Or.inl rfl⟩

theorem Grows.find?_eq (grows : Grows start names fs fs') (l : Location) :
    fs'.find? l = fs.find? l ∨ fs.find? l = none ∧ fs'.find? l = some .directory ∧
      ∃ front, front <+: names ∧ fs'.walk false maxStretches start front = .ok l := by
  refine (grows.changed l).imp (fun same => ?_) fun ⟨absent, created, passed⟩ => ?_
  · simp only [find?, same, bytes, grows.contents]
  · exact ⟨by simp only [find?, absent], by simp only [find?, created], passed⟩

theorem Grows.shares_iff (grows : Grows start names fs fs') (l m : Location) :
    fs'.Shares l m ↔ fs.Shares l m := by
  have numbers (l : Location) : fs'.number? l = fs.number? l := by
    rcases grows.changed l with same | ⟨absent, created, _⟩
    · simp only [number?, same]
    · simp only [number?, absent, created]
  simp only [Shares, numbers]

/-- Names lead where they led. -/
theorem Grows.walk_eq_ok (grows : Grows start names fs fs')
    (h : fs.walk creating stretches l front = .ok m) :
    fs'.walk creating stretches l front = .ok m := by
  refine walk_mono (fun m => (grows.changed m).imp_right ?_) h
  exact fun ⟨absent, created, _⟩ => ⟨absent, .directory, created, nofun⟩

theorem Grows.trans (first : Grows start names fs fs') (second : Grows start names fs' fs'') :
    Grows start names fs fs'' where
  workingDirectory := second.workingDirectory.trans first.workingDirectory
  contents := second.contents.trans first.contents
  changed l := by
    rcases first.changed l with same | ⟨absent, created, front, prefixed, walked⟩
    · rw [← same]
      exact second.changed l
    · rcases second.changed l with same | ⟨absent', _⟩
      · exact Or.inr ⟨absent, same.trans created, front, prefixed, second.walk_eq_ok walked⟩
      · rw [created] at absent'
        cases absent'

theorem Grows.of_filter (grows : Grows start (names.filter (· != ".")).dropLast fs fs') :
    Grows start names fs fs' where
  workingDirectory := grows.workingDirectory
  contents := grows.contents
  changed l := by
    refine (grows.changed l).imp_right fun ⟨absent, created, front, prefixed, walked⟩ => ?_
    obtain ⟨rest, split⟩ := prefixed.trans (List.dropLast_prefix _)
    obtain ⟨front', rest', rfl, rfl, _⟩ := List.filter_eq_append_iff.mp split.symm
    exact ⟨absent, created, front', List.prefix_append _ _,
      (undotted_filter front').walk created walked⟩

theorem dropLast_append_getLastD (some : names ≠ []) :
    names.dropLast ++ [names.getLastD "."] = names := by
  rw [List.getLastD_eq_getLast?, List.getLast?_eq_some_getLast some, Option.getD_some,
    List.dropLast_concat_getLast]

theorem Grows.of_makeDirectory {p : PathParts} (named : p.names ≠ [])
    (h : fs.makeDirectory p = .ok fs') : Grows (fs.start p) p.names fs fs' := by
  obtain ⟨d, walked, h⟩ := bind_eq_ok.mp h
  obtain ⟨_, directory, h⟩ := bind_eq_ok.mp h
  rw [checkDirectory_eq_ok] at directory
  generalize last : p.names.getLastD "." = name at h
  dsimp only at h
  split at h
  case isTrue => cases h
  case isFalse fits =>
    split at h
    case isFalse => cases h
    case isTrue fresh =>
      obtain rfl := Except.ok.inj h
      obtain ⟨entry, absent⟩ := fresh
      have below : d ++ [name] ≠ [] := by simp
      have created : (fs.putDirectory (d ++ [name])).stored? (d ++ [name]) = some .directory := by
        rw [stored?_putDirectory fs below, if_pos rfl]
      have others {l : Location} (other : l ≠ d ++ [name]) :
          (fs.putDirectory (d ++ [name])).stored? l = fs.stored? l := by
        rw [stored?_putDirectory fs below, if_neg other]
      have led : (fs.putDirectory (d ++ [name])).walk false maxStretches (fs.start p)
          p.names.dropLast = .ok d := walk_mono (fun l => ?_) walked
      · refine ⟨rfl, rfl, fun l => ?_⟩
        by_cases here : l = d ++ [name]
        case neg => exact Or.inl (others here)
        subst here
        refine Or.inr ⟨absent, created, p.names, List.prefix_rfl, ?_⟩
        have still : (fs.putDirectory (d ++ [name])).stored? d = some .directory := by
          rw [others (by simp), directory]
        have there := (congrArg (fs.putDirectory (d ++ [name])).stored? entry).trans created
        have whole := walk_concat led still (Nat.not_lt.mp fits) there nofun
        rwa [entry, ← last, dropLast_append_getLastD named, last] at whole
      · by_cases here : l = d ++ [name]
        · subst here
          exact Or.inr ⟨absent, .directory, created, nofun⟩
        · exact Or.inl (others here)

/-- Whatever an attempt to create directories comes to, it adds directories only. -/
theorem Grows.of_makeAll (fuel : Nat) (fs : Files) (p : PathParts) :
    Grows (fs.start p) p.names fs (makeAll fuel fs p).1 := by
  induction fuel generalizing fs p with
  | zero => exact Grows.refl _ _ _
  | succ fuel ih =>
    rw [makeAll]
    split
    case isTrue => exact Grows.refl _ _ _
    case isFalse occupied =>
      have named : p.names ≠ [] := by simpa using occupied
      split
      case h_1 made => exact Grows.of_makeDirectory named made
      case h_2 =>
        -- first the directories above, then this one unless it is there by now
        have first := (ih fs { p with names := (p.names.filter (· != ".")).dropLast }).of_filter
        split
        case h_1 above e failed =>
          rw [failed] at first
          exact first
        case h_2 above done =>
          rw [done] at first
          have start : above.start p = fs.start p := by
            rw [Files.start, Files.start, first.workingDirectory]
          split
          case h_1 made => exact first.trans (start ▸ Grows.of_makeDirectory named made)
          case h_2 => exact first
      case h_3 => exact Grows.refl _ _ _

/-- Whatever differs after an attempt to create a directory is a directory on the way to it, or the
directory itself, where nothing lay. -/
theorem createDirectories_changed (fs : Files) (path : String) :
    (fs.createDirectories path).1.workingDirectory = fs.workingDirectory ∧
      (∀ l m, (fs.createDirectories path).1.Shares l m ↔ fs.Shares l m) ∧
      ∀ l, (fs.createDirectories path).1.find? l = fs.find? l ∨
        fs.find? l = none ∧ (fs.createDirectories path).1.find? l = some .directory ∧
          l ∈ (fs.createDirectories path).1.passes path := by
  rw [createDirectories]
  split
  case isTrue => exact ⟨rfl, fun _ _ => Iff.rfl, fun _ => Or.inl rfl⟩
  case isFalse =>
    split
    case h_1 => exact ⟨rfl, fun _ _ => Iff.rfl, fun _ => Or.inl rfl⟩
    case h_2 p accepted =>
      dsimp only
      generalize named : (if path.toList.getLast? == some '/' then p.names.dropLast
        else p.names) = names
      have grows := Grows.of_makeAll (names.length + 1) fs { p with names }
      generalize (makeAll (names.length + 1) fs { p with names }).1 = fs' at grows
      refine ⟨grows.workingDirectory, grows.shares_iff, fun l => (grows.find?_eq l).imp_right ?_⟩
      rintro ⟨absent, created, front, prefixed, walked⟩
      have start : fs'.start p = fs.start p := by
        rw [Files.start, Files.start, grows.workingDirectory]
      have front : front <+: p.names := by
        refine prefixed.trans ?_
        rw [← named]
        split
        · exact List.dropLast_prefix _
        · exact List.prefix_rfl
      refine ⟨absent, created, ?_⟩
      simp only [passes, accepted, start]
      exact mem_trail_of_walk front walked

theorem createDirectory_eq_ok {path : String} :
    fs.createDirectory path = .ok fs' ↔ fs.createDirectories path = (fs', .ok ()) := by
  rw [createDirectory]
  split
  case h_1 files created => simp [created]
  case h_2 files e failed => simp [failed]

/-- No links come from creating directories. -/
theorem Unlinked.of_createDirectory {path : String} (unlinked : fs.Unlinked)
    (created : fs.createDirectory path = .ok fs') : fs'.Unlinked := by
  obtain ⟨_, shares, changed⟩ := createDirectories_changed fs path
  rw [createDirectory_eq_ok.mp created] at shares changed
  refine ⟨fun l target link => ?_, fun shared => unlinked.single ((shares _ _).mp shared)⟩
  rcases changed l with same | ⟨_, directory, _⟩
  · exact unlinked.plain l target (same ▸ link)
  · rw [directory] at link
    cases link

end

end Files

end FolGraph
