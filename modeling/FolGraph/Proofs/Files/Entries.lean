import FolGraph.Files
import FolGraph.Proofs.Outcome

/-!
# Entries and numbers

A file is stored under a number, so that two places can hold one file (`Shares`). Writing a file
changes what is found at the places that share it and at no others (`find?_putFile`), and it does
not change which places share a file (`shares_putFile`).
-/

namespace FolGraph

namespace Files

/-- Two places are the same or hold the same file. -/
def Shares (fs : Files) (l m : Location) : Prop :=
  l = m ∨ (fs.number? l).isSome ∧ fs.number? l = fs.number? m

instance (fs : Files) (l m : Location) : Decidable (fs.Shares l m) :=
  inferInstanceAs (Decidable (l = m ∨ (fs.number? l).isSome ∧ fs.number? l = fs.number? m))

/-- Nothing lies at a place, or a file does. -/
def TakesFile (fs : Files) (l : Location) : Prop :=
  fs.stored? l = none ∨ ∃ n, fs.stored? l = some (.file n)

/-- No name stands for another path, and no file has two names. -/
structure Unlinked (fs : Files) : Prop where
  plain : ∀ l target, fs.find? l ≠ some (.link target)
  single : ∀ {l m}, fs.Shares l m → l = m

section
variable {fs fs' : Files} {l m k : Location}

theorem Shares.refl (fs : Files) (l : Location) : fs.Shares l l := Or.inl rfl

theorem Shares.symm (h : fs.Shares l m) : fs.Shares m l := by
  rcases h with rfl | ⟨numbered, same⟩
  · exact .refl fs l
  · exact Or.inr ⟨same ▸ numbered, same.symm⟩

theorem Shares.trans (h : fs.Shares l m) (h' : fs.Shares m k) : fs.Shares l k := by
  rcases h with rfl | ⟨numbered, same⟩
  · exact h'
  rcases h' with rfl | ⟨_, same'⟩
  · exact Or.inr ⟨numbered, same⟩
  · exact Or.inr ⟨numbered, same.trans same'⟩

theorem number?_eq_some {n : Nat} : fs.number? l = some n ↔ fs.stored? l = some (.file n) := by
  unfold number?
  split <;> simp_all

theorem find?_eq_file {contents : ByteArray} : fs.find? l = some (.file contents) ↔
    ∃ n, fs.stored? l = some (.file n) ∧ fs.bytes n = contents := by
  unfold find?
  split <;> simp_all

theorem TakesFile.ne_nil (h : fs.TakesFile l) : l ≠ [] := by
  rintro rfl
  rcases h with none | ⟨n, file⟩
  · cases none
  · cases file

theorem Unlinked.stored?_ne (unlinked : fs.Unlinked) (l : Location) (target : String) :
    fs.stored? l ≠ some (.link target) := by
  intro link
  apply unlinked.plain l target
  simp only [find?, link]

/-- A place that holds no file shares it with no other. -/
theorem Shares.eq_of_number?_eq_none (h : fs.Shares l m) (none : fs.number? l = none) : l = m := by
  rcases h with same | ⟨numbered, _⟩
  · exact same
  · rw [none] at numbered
    cases numbered

/-- The same is stored at two places of which one holds a file that the other shares. -/
theorem Shares.stored?_eq (h : fs.Shares l m) : fs.stored? m = fs.stored? l := by
  rcases h with rfl | ⟨numbered, same⟩
  · rfl
  · obtain ⟨n, here⟩ := Option.isSome_iff_exists.mp numbered
    rw [number?_eq_some.mp here, number?_eq_some.mp (same ▸ here)]

theorem Shares.find?_eq (h : fs.Shares l m) : fs.find? m = fs.find? l := by
  rw [find?, h.stored?_eq, find?]

/-! ## Tables -/

theorem lookup_map_replace {α β : Type} [BEq α] [LawfulBEq α] (table : List (α × β)) (key : α)
    (value : β) (other : α) :
    (table.map fun old => if old.1 == key then (key, value) else old).lookup other =
      if other == key then (table.lookup other).map fun _ => value else table.lookup other := by
  induction table with
  | nil => simp
  | cons old rest ih =>
    obtain ⟨k, v⟩ := old
    by_cases here : k = key
    · subst here
      by_cases wanted : other = k
      · simp [wanted]
      · simp [List.lookup_cons, beq_eq_false_iff_ne.2 wanted, ih]
    · by_cases wanted : other = k
      · simp [wanted, here]
      · simp [here, List.lookup_cons, beq_eq_false_iff_ne.2 wanted, ih]

theorem lookup_assign {α β : Type} [BEq α] [LawfulBEq α] (table : List (α × β)) (key : α)
    (value : β) (other : α) : (assign table key value).lookup other =
      if other == key then some value else table.lookup other := by
  unfold assign
  split
  case isTrue known =>
    obtain ⟨old, found⟩ := Option.isSome_iff_exists.1 known
    rw [lookup_map_replace]
    by_cases wanted : other = key
    · simp [wanted, found]
    · simp [wanted]
  case isFalse missing =>
    have missing : table.lookup key = none := Option.not_isSome_iff_eq_none.1 missing
    by_cases wanted : other = key
    · subst wanted
      simp [List.lookup_append, missing]
    · simp [List.lookup_append, List.lookup_cons, beq_eq_false_iff_ne.2 wanted]

theorem stored?_of_assign {s : Stored} (below : l ≠ []) (stored : fs'.stored = assign fs.stored l s)
    (m : Location) : fs'.stored? m = if m = l then some s else fs.stored? m := by
  unfold stored?
  rw [stored, lookup_assign]
  by_cases root : m = []
  · simp [root, Ne.symm below]
  · simp [root]

theorem mem_stored_of_stored? {s : Stored} (below : l ≠ []) (h : fs.stored? l = some s) :
    (l, s) ∈ fs.stored := by
  rw [stored?, if_neg below] at h
  obtain ⟨before, after, split, _⟩ := List.lookup_eq_some_iff.mp h
  simp [split]

theorem lt_unusedNumber {n : Nat} (h : fs.number? l = some n) : n < fs.unusedNumber := by
  have found : (l, Stored.file n) ∈ fs.stored := by
    have stored := number?_eq_some.mp h
    refine mem_stored_of_stored? ?_ stored
    rintro rfl
    cases stored
  unfold unusedNumber
  generalize fs.stored = table at found
  induction table with
  | nil => cases found
  | cons old rest ih =>
    rw [List.foldr_cons]
    rcases List.mem_cons.mp found with rfl | later
    · exact Nat.lt_of_lt_of_le (Nat.lt_succ_self n) (Nat.le_max_left _ _)
    · split
      · exact Nat.lt_of_lt_of_le (ih later) (Nat.le_max_right _ _)
      · exact ih later

/-! ## Files and directories that are put -/

theorem stored?_putDirectory (fs : Files) (below : l ≠ []) (m : Location) :
    (fs.putDirectory l).stored? m = if m = l then some .directory else fs.stored? m :=
  stored?_of_assign below rfl m

theorem stored?_putFile (fs : Files) (below : l ≠ []) (contents : ByteArray) (m : Location) :
    (fs.putFile l contents).stored? m =
      if m = l then some (.file ((fs.number? l).getD fs.unusedNumber)) else fs.stored? m :=
  stored?_of_assign below rfl m

theorem number?_putFile (fs : Files) (below : l ≠ []) (contents : ByteArray) (m : Location) :
    (fs.putFile l contents).number? m =
      if m = l then some ((fs.number? l).getD fs.unusedNumber) else fs.number? m := by
  rw [number?, stored?_putFile fs below]
  by_cases here : m = l
  · simp [here]
  · simp [here, number?]

theorem bytes_putFile (fs : Files) (l : Location) (contents : ByteArray) (n : Nat) :
    (fs.putFile l contents).bytes n =
      if n = (fs.number? l).getD fs.unusedNumber then contents else fs.bytes n := by
  unfold bytes
  simp only [putFile, lookup_assign, beq_iff_eq]
  split <;> rfl

/-- Other places hold the file that is written if they share it: its number is either the one that
they share or new. -/
theorem number?_eq_iff_shares (fs : Files) (other : m ≠ l) :
    fs.number? m = some ((fs.number? l).getD fs.unusedNumber) ↔ fs.Shares m l := by
  cases numbered : fs.number? l with
  | some n =>
    simp only [Option.getD_some, Shares, other, false_or, numbered]
    constructor
    · intro same
      simp [same]
    · exact fun h => h.2
  | none =>
    simp only [Option.getD_none, Shares, other, false_or, numbered]
    constructor
    · intro same
      exact absurd (lt_unusedNumber same) (Nat.lt_irrefl _)
    · rintro ⟨some, none⟩
      rw [none] at some
      cases some

/-- What is written to a file is found at all places that share it. -/
theorem find?_putFile (fs : Files) (below : l ≠ []) (contents : ByteArray) (m : Location) :
    (fs.putFile l contents).find? m =
      if fs.Shares m l then some (.file contents) else fs.find? m := by
  rw [find?, stored?_putFile fs below]
  by_cases here : m = l
  · subst here
    simp [bytes_putFile, Shares.refl]
  rw [if_neg here]
  have shared := fs.number?_eq_iff_shares here
  rw [number?_eq_some] at shared
  rw [find?]
  cases stored : fs.stored? m with
  | none =>
    rw [stored] at shared
    rw [if_neg (mt shared.mpr (by simp))]
  | some s =>
    rw [stored] at shared
    cases s with
    | file n =>
      rw [Option.some.injEq, Stored.file.injEq] at shared
      simp only [bytes_putFile, shared]
      split <;> rfl
    | directory => rw [if_neg (mt shared.mpr (by simp))]
    | link target => rw [if_neg (mt shared.mpr (by simp))]

theorem shares_putFile (fs : Files) (below : l ≠ []) (contents : ByteArray) (m k : Location) :
    (fs.putFile l contents).Shares m k ↔ fs.Shares m k := by
  by_cases same : m = k
  · simp [Shares, same]
  have shared {j : Location} (other : j ≠ l) := fs.number?_eq_iff_shares other
  rw [Shares, number?_putFile fs below, number?_putFile fs below]
  by_cases hm : m = l
  · subst hm
    rw [if_pos rfl, if_neg (Ne.symm same), @eq_comm _ (some _) (fs.number? k),
      shared (Ne.symm same)]
    simp only [same, false_or, Option.isSome_some, true_and]
    exact ⟨Shares.symm, Shares.symm⟩
  by_cases hk : k = l
  · subst hk
    rw [if_neg hm, if_pos rfl, shared hm]
    simp only [same, false_or]
    refine ⟨fun h => h.2, fun h => ⟨?_, h⟩⟩
    rw [(shared hm).mpr h]
    rfl
  · rw [if_neg hm, if_neg hk, Shares]

/-- No links come from writing files. -/
theorem Unlinked.putFile (unlinked : fs.Unlinked) (below : l ≠ []) (contents : ByteArray) :
    (fs.putFile l contents).Unlinked := by
  refine ⟨fun m target link => ?_, fun shared => ?_⟩
  · rw [find?_putFile fs below] at link
    split at link
    · cases link
    · exact unlinked.plain m target link
  · exact unlinked.single ((shares_putFile fs below contents _ _).mp shared)

theorem unlinked_empty (workingDirectory : Location) : (empty workingDirectory).Unlinked := by
  have stored {l : Location} {s : Stored} (h : (empty workingDirectory).stored? l = some s) :
      s = .directory := by
    by_cases root : l = []
    · subst root
      exact (Option.some.inj h).symm
    · have listed := mem_stored_of_stored? root h
      simp only [empty, List.mem_map, Prod.mk.injEq] at listed
      obtain ⟨_, _, _, same⟩ := listed
      exact same.symm
  refine ⟨fun l target link => ?_, fun {l m} shared => shared.eq_of_number?_eq_none ?_⟩
  · unfold find? at link
    split at link
    case h_3 there => cases stored there
    all_goals cases link
  · unfold number?
    split
    · cases stored ‹_›
    · rfl

end

end Files

end FolGraph
