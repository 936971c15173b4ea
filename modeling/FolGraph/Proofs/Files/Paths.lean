import FolGraph.Proofs.Files.Entries

/-!
# Paths and places

A path leads to a place if its names but the last, and those of the links on the way, lead through
directories; nothing need lie there. What is read from a path lies at its place, and what is written
to it is put there (`place_of_writePlace`). A path that leads to a place still does when files and
directories come to lie where nothing lay (`walk_mono`).
-/

namespace FolGraph

namespace Files

/-- Two paths name the same file if they lead to one place, or to places that share a file. -/
def SameFile (fs : Files) (path path' : String) : Prop :=
  ∃ l l', fs.place path = .ok l ∧ fs.place path' = .ok l' ∧ fs.Shares l l'

instance (fs : Files) (path path' : String) : Decidable (fs.SameFile path path') :=
  match here : fs.place path, there : fs.place path' with
  | .ok l, .ok l' => decidable_of_iff (fs.Shares l l') (by simp [SameFile, here, there])
  | .error _, _ => isFalse (by simp [SameFile, here])
  | _, .error _ => isFalse (by simp [SameFile, there])

/-- The places that names pass up to the first link, as far as they lead. -/
def trailWith (fs : Files) (jump : Location → List String → List Location) (l : Location) :
    List String → List Location
  | [] => [l]
  | name :: names =>
    l :: if fs.stored? l = some .directory then
        match fs.stored? (entryAt l name) with
        | some (.link target) =>
          match parts target with
          | .ok p => jump (p.startAt l) (p.names ++ names)
          | .error _ => []
        | some _ => fs.trailWith jump (entryAt l name) names
        | none => [entryAt l name]
      else []

/-- The places that names pass, also those of links, as far as they lead. -/
def trail (fs : Files) : Nat → Location → List String → List Location
  | 0, _, _ => []
  | stretches + 1, l, names => fs.trailWith (fs.trail stretches) l names

/-- The places that a path passes, as far as it leads. -/
def passes (fs : Files) (path : String) : List Location :=
  match parts path with
  | .ok p => fs.trail maxStretches (fs.start p) p.names
  | .error _ => []

/-! ## Following names -/

section
variable {fs fs' : Files} {creating : Bool} {stretches : Nat} {l m : Location} {name : String}
  {names front : List String}

theorem checkDirectory_eq_ok {u : Unit} :
    fs.checkDirectory l = .ok u ↔ fs.stored? l = some .directory := by
  unfold checkDirectory
  split <;> simp_all

theorem mem_trail (fs : Files) (stretches : Nat) (l : Location) (names : List String) :
    l ∈ fs.trail (stretches + 1) l names := by
  cases names with
  | nil => exact List.mem_singleton_self l
  | cons name names => exact List.mem_cons_self

/-- Names lead nowhere from a missing place. -/
theorem walk_cons_of_none (absent : fs.stored? l = none) (name : String) (names : List String) :
    fs.walk creating (stretches + 1) l (name :: names) = .error .notFound := by
  simp only [walk, walkWith, checkDirectory, absent]
  rfl

/-- Names lead nowhere from a file. -/
theorem walk_cons_of_file {n : Nat} (file : fs.stored? l = some (.file n)) (name : String)
    (names : List String) :
    fs.walk creating (stretches + 1) l (name :: names) = .error .notADirectory := by
  simp only [walk, walkWith, checkDirectory, file]
  rfl

/-- What the next name leads to: a link, which begins another stretch of the way, something else, or
nothing, which is where the way may end. -/
inductive Next (fs : Files) (creating : Bool) (stretches : Nat) (l : Location) (name : String)
    (names : List String) (m : Location) : Prop
  | link {target : String} {p : PathParts}
      (there : fs.stored? (entryAt l name) = some (.link target)) (accepted : parts target = .ok p)
      (rest : fs.walk creating stretches (p.startAt l) (p.names ++ names) = .ok m)
  | entry {s : Stored} (there : fs.stored? (entryAt l name) = some s)
      (solid : ∀ target, s ≠ .link target)
      (rest : fs.walk creating (stretches + 1) (entryAt l name) names = .ok m)
  | nothing (there : fs.stored? (entryAt l name) = none) (last : names = [])
      (here : m = entryAt l name)

/-- Names lead on from a directory only. -/
theorem walk_cons_eq_ok : fs.walk creating (stretches + 1) l (name :: names) = .ok m ↔
    fs.stored? l = some .directory ∧ (creating && names == [""]) = false ∧
      name.utf8ByteSize ≤ 255 ∧ Next fs creating stretches l name names m := by
  rw [walk, walkWith, bind_eq_ok]
  simp only [checkDirectory_eq_ok, exists_and_left, exists_const]
  refine and_congr_right fun _ => ?_
  cases slash : creating && names == [""] with
  | true => simp
  | false =>
    by_cases long : 255 < name.utf8ByteSize
    · have short : ¬name.utf8ByteSize ≤ 255 := by omega
      simp [long, short]
    have short : name.utf8ByteSize ≤ 255 := by omega
    simp only [Bool.false_eq_true, if_false, long, short, true_and]
    constructor
    · intro h
      split at h
      case h_1 target there =>
        obtain ⟨p, accepted, rest⟩ := bind_eq_ok.mp h
        exact .link there accepted rest
      case h_2 s solid there => exact .entry there (fun target same => solid target same) h
      case h_3 there =>
        split at h
        · next last => exact .nothing there (by simpa using last) (Except.ok.inj h).symm
        · cases h
    · intro next
      cases next with
      | link there accepted rest =>
        simp only [there]
        exact bind_eq_ok.mpr ⟨_, accepted, rest⟩
      | entry there solid rest =>
        simp only [there]
        exact rest
      | nothing there last here =>
        subst last here
        simp [there]

/-- Names lead where they led if whatever is stored stays, and no link is added. -/
theorem walk_mono
    (kept : ∀ l, fs'.stored? l = fs.stored? l ∨
      fs.stored? l = none ∧ ∃ s, fs'.stored? l = some s ∧ ∀ target, s ≠ .link target)
    (h : fs.walk creating stretches l names = .ok m) :
    fs'.walk creating stretches l names = .ok m := by
  have stays {l : Location} {s : Stored} (there : fs.stored? l = some s) :
      fs'.stored? l = some s := by
    rcases kept l with same | ⟨none, _⟩
    · rw [same, there]
    · rw [none] at there
      cases there
  induction stretches generalizing l names with
  | zero => cases h
  | succ stretches ih =>
    induction names generalizing l with
    | nil => exact h
    | cons name names ihNames =>
      obtain ⟨directory, open_, short, next⟩ := walk_cons_eq_ok.mp h
      refine walk_cons_eq_ok.mpr ⟨stays directory, open_, short, ?_⟩
      cases next with
      | link there accepted rest => exact .link (stays there) accepted (ih rest)
      | entry there solid rest => exact .entry (stays there) solid (ihNames rest)
      | nothing there last here =>
        subst last here
        rcases kept (entryAt l name) with same | ⟨_, s, added, solid⟩
        · exact .nothing (same.trans there) rfl rfl
        · exact .entry added solid rfl

/-- Without links, names lead on from where those before them lead. -/
theorem Unlinked.walk_append (unlinked : fs.Unlinked) (stretches : Nat) (l : Location)
    (front names : List String) : fs.walk false (stretches + 1) l (front ++ names) =
      (fs.walk false (stretches + 1) l front).bind
        fun d => fs.walk false (stretches + 1) d names := by
  induction front generalizing l with
  | nil => rfl
  | cons name front ih =>
    simp only [walk] at ih ⊢
    rw [List.cons_append, walkWith, walkWith]
    cases fs.checkDirectory l with
    | error e => rfl
    | ok _ =>
      simp only [bind, Except.bind, Bool.false_and, Bool.false_eq_true, if_false] at ih ⊢
      by_cases long : 255 < name.utf8ByteSize
      · simp [long]
      simp only [long, if_false]
      cases there : fs.stored? (entryAt l name) with
      | none =>
        cases front with
        | nil =>
          cases names with
          | nil => rfl
          | cons next names => exact (walk_cons_of_none there next names).symm
        | cons next front => rfl
      | some s =>
        cases s with
        | file n => exact ih _
        | directory => exact ih _
        | link target => exact absurd there (unlinked.stored?_ne _ target)

/-- Without links, a name leads from a directory whether or not something lies there. -/
theorem Unlinked.walk_singleton_ne (unlinked : fs.Unlinked)
    (directory : fs.stored? l = some .directory) (name : String) :
    fs.walk false (stretches + 1) l [name] ≠ .error .notFound := by
  simp only [walk, walkWith, checkDirectory, directory, bind, Except.bind, Bool.false_and,
    Bool.false_eq_true, if_false, List.isEmpty_nil, if_true]
  split
  · simp
  · split
    · exact absurd ‹_› (unlinked.stored?_ne _ _)
    · simp
    · simp

/-- A file that is created lies where its path leads; only the slash after its name is refused. -/
theorem walk_creating (fs : Files) (stretches : Nat) (l : Location) (names : List String) :
    fs.walk true stretches l names = fs.walk false stretches l names ∨
      fs.walk true stretches l names = .error .isADirectory := by
  induction stretches generalizing l names with
  | zero => exact Or.inl rfl
  | succ stretches ih =>
    induction names generalizing l with
    | nil => exact Or.inl rfl
    | cons name names ihNames =>
      simp only [walk, walkWith] at ihNames ⊢
      cases fs.checkDirectory l with
      | error e => exact Or.inl rfl
      | ok _ =>
        by_cases slash : names = [""]
        · subst slash
          exact Or.inr rfl
        have unclosed : (names == [""]) = false := by simpa using slash
        simp only [bind, Except.bind, unclosed, Bool.and_false, Bool.false_eq_true, if_false]
        by_cases long : 255 < name.utf8ByteSize
        · simp [long]
        simp only [long, if_false]
        cases fs.stored? (entryAt l name) with
        | none => exact Or.inl rfl
        | some s =>
          cases s with
          | file n => exact ihNames _
          | directory => exact ihNames _
          | link target =>
            dsimp only
            cases parts target with
            | error e => exact Or.inl rfl
            | ok p => exact ih _ _

/-- Names pass the place that the first of them lead to. -/
theorem mem_trail_of_walk (prefixed : front <+: names)
    (h : fs.walk creating stretches l front = .ok m) : m ∈ fs.trail stretches l names := by
  induction stretches generalizing l front names with
  | zero => cases h
  | succ stretches ih =>
    induction front generalizing l names with
    | nil =>
      obtain rfl := Except.ok.inj h
      exact mem_trail fs stretches _ names
    | cons name front ihFront =>
      obtain ⟨rest, rfl⟩ := prefixed
      obtain ⟨directory, _, _, next⟩ := walk_cons_eq_ok.mp h
      rw [List.cons_append, trail, trailWith, if_pos directory]
      refine List.mem_cons_of_mem _ ?_
      cases next with
      | link there accepted led =>
        simp only [there, accepted]
        refine ih ?_ led
        rw [← List.append_assoc]
        exact List.prefix_append _ _
      | entry there solid led =>
        simp only [there]
        exact ihFront (List.prefix_append front rest) led
      | nothing there last here =>
        subst here
        simp [there]

/-! ## Reading and writing -/

variable {path : String}

theorem read_eq_ok {contents : ByteArray} : fs.read path = .ok contents ↔
    ∃ l, fs.locate path = .ok l ∧ fs.find? l = some (.file contents) := by
  rw [read, bind_eq_ok]
  refine exists_congr fun l => and_congr_right fun _ => ?_
  cases fs.find? l with
  | none => simp
  | some entry => cases entry <;> simp

theorem read_eq_ok_of_place {contents : ByteArray} (placed : fs.place path = .ok l)
    (file : fs.find? l = some (.file contents)) : fs.read path = .ok contents := by
  obtain ⟨n, stored, _⟩ := find?_eq_file.mp file
  refine read_eq_ok.mpr ⟨l, bind_eq_ok.mpr ⟨l, placed, ?_⟩, file⟩
  rw [stored]
  rfl

theorem readText_of_read {text : String} (stored : fs.read path = .ok text.toUTF8) :
    fs.readText path = .ok text := by
  have whole : String.fromUTF8? text.toUTF8 = some text := dif_pos text.isValidUTF8
  rw [readText, stored]
  simp only [bind, Except.bind]
  rw [whole]

theorem write_eq (fs : Files) (path : String) (contents : ByteArray) :
    fs.write path contents = (fs.writePlace path).map fun l => fs.putFile l contents := by
  rw [write]
  cases fs.writePlace path <;> rfl

theorem write_eq_error {contents : ByteArray} {e : FileError} :
    fs.write path contents = .error e ↔ fs.writePlace path = .error e := by
  rw [write_eq]
  cases fs.writePlace path <;> simp [Except.map]

/-- What is written to a path is put at the place of the path. -/
theorem place_of_writePlace (h : fs.writePlace path = .ok l) :
    fs.place path = .ok l ∧ fs.TakesFile l := by
  obtain ⟨p, accepted, h⟩ := bind_eq_ok.mp h
  obtain ⟨m, walked, h⟩ := bind_eq_ok.mp h
  have placed : fs.place path = .ok m := by
    refine bind_eq_ok.mpr ⟨p, accepted, ?_⟩
    rcases fs.walk_creating maxStretches (fs.start p) p.names with same | refused
    · rw [← same, walked]
    · rw [walked] at refused
      cases refused
  split at h
  case h_1 n file =>
    obtain rfl := Except.ok.inj h
    exact ⟨placed, Or.inr ⟨n, file⟩⟩
  case h_2 none =>
    obtain rfl := Except.ok.inj h
    exact ⟨placed, Or.inl none⟩
  case h_3 => cases h

end

end Files

end FolGraph
