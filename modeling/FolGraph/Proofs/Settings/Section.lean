import FolGraph.Proofs.Outcome
import FolGraph.Proofs.Toml.Keys
import FolGraph.Settings.Reader

/-!
# Records read from tables

Each field of a section has a place of its own in the record (`Section.Slot`). So a table is
accepted exactly if each of its entries is, whatever the order (`Regular.exists_ofEntries_iff`),
and if no key comes twice, a field holds what its entry says or, without an entry, its default
(`Slot.lookup_getD`).
-/

namespace FolGraph.Section

open Toml (Value)

variable {α β : Type} {s : Section α}

/-- A field with its place in the record: how its value is read, where it is found and how it is
put there. -/
structure Slot (s : Section α) (field : String) (read : Value → Except SettingsError β)
    (get : α → β) (put : α → β → α) : Prop where
  declared : field ∈ s.fields
  set_eq : ∀ a v, s.set a field v = (do .ok (put a (← read v)))
  get_put : ∀ a b, get (put a b) = b
  /-- Other fields are put elsewhere. -/
  keeps : ∀ other ∈ s.fields, other ≠ field → ∀ {a v a'}, s.set a other v = .ok a' → get a' = get a

/-- Every field of the section has a place. -/
def Regular (s : Section α) : Prop :=
  ∀ field ∈ s.fields, ∃ (β : Type) (read : Value → Except SettingsError β) (get : α → β)
    (put : α → β → α), s.Slot field read get put

/-- A value that a field accepts, whatever the record holds so far. -/
def Accepts (s : Section α) (field : String) (v : Value) : Prop :=
  field ∈ s.fields ∧ ∀ a, ∃ a', s.set a field v = .ok a'

/-! ## One entry -/

theorem setNamed_eq_ok_iff {a a' : α} {e : String × Value} :
    s.setNamed a e = .ok a' ↔ e.1 ∈ s.fields ∧ s.set a e.1 e.2 = .ok a' := by
  unfold setNamed
  split
  · next known => simp [List.contains_iff_mem.mp known]
  · next unknown =>
    have absent : e.1 ∉ s.fields := fun mem => unknown (List.contains_iff_mem.mpr mem)
    simp [absent]

section
variable {field : String} {read : Value → Except SettingsError β} {get : α → β} {put : α → β → α}

theorem Slot.set_eq_ok_iff (slot : s.Slot field read get put) {a a' : α} {v : Value} :
    s.set a field v = .ok a' ↔ ∃ b, read v = .ok b ∧ put a b = a' := by
  rw [slot.set_eq, bind_eq_ok]
  simp

theorem Slot.accepts_iff (slot : s.Slot field read get put) {v : Value} :
    s.Accepts field v ↔ ∃ b, read v = .ok b := by
  constructor
  · rintro ⟨-, set⟩
    obtain ⟨a', done⟩ := set s.initial
    obtain ⟨b, value, -⟩ := slot.set_eq_ok_iff.mp done
    exact ⟨b, value⟩
  · rintro ⟨b, value⟩
    exact ⟨slot.declared, fun a => ⟨put a b, slot.set_eq_ok_iff.mpr ⟨b, value, rfl⟩⟩⟩

/-- Whether an entry is accepted does not depend on the record. -/
theorem Regular.exists_setNamed_iff (regular : s.Regular) {a : α} {e : String × Value} :
    (∃ a', s.setNamed a e = .ok a') ↔ s.Accepts e.1 e.2 := by
  simp only [setNamed_eq_ok_iff]
  constructor
  · rintro ⟨a', declared, done⟩
    obtain ⟨β, read, get, put, slot⟩ := regular e.1 declared
    obtain ⟨b, value, -⟩ := slot.set_eq_ok_iff.mp done
    exact slot.accepts_iff.mpr ⟨b, value⟩
  · rintro ⟨declared, set⟩
    obtain ⟨a', done⟩ := set a
    exact ⟨a', declared, done⟩

/-! ## All entries -/

theorem Regular.exists_foldlM_iff (regular : s.Regular) {a : α}
    {entries : List (String × Value)} :
    (∃ a', entries.foldlM s.setNamed a = .ok a') ↔ ∀ e ∈ entries, s.Accepts e.1 e.2 := by
  induction entries generalizing a with
  | nil => exact ⟨fun _ => List.forall_mem_nil _, fun _ => ⟨a, rfl⟩⟩
  | cons e entries ih =>
    rw [List.forall_mem_cons, ← regular.exists_setNamed_iff (a := a)]
    simp only [List.foldlM_cons, bind_eq_ok]
    constructor
    · rintro ⟨a', a₁, first, rest⟩
      exact ⟨⟨a₁, first⟩, ih.mp ⟨a', rest⟩⟩
    · rintro ⟨⟨a₁, first⟩, others⟩
      obtain ⟨a', rest⟩ := ih.mpr others
      exact ⟨a', a₁, first, rest⟩

theorem Regular.exists_ofEntries_iff (regular : s.Regular) {entries : List (String × Value)} :
    (∃ a, s.ofEntries entries = .ok a) ↔ ∀ e ∈ entries, s.Accepts e.1 e.2 :=
  regular.exists_foldlM_iff

variable {entries : List (String × Value)} {a a' : α}

theorem Slot.foldlM_keeps (slot : s.Slot field read get put)
    (absent : field ∉ entries.map Prod.fst) (done : entries.foldlM s.setNamed a = .ok a') :
    get a' = get a := by
  induction entries generalizing a with
  | nil =>
    cases done
    rfl
  | cons e entries ih =>
    obtain ⟨differs, absent⟩ := List.ne_and_not_mem_of_not_mem_cons absent
    rw [List.foldlM_cons] at done
    obtain ⟨a₁, first, rest⟩ := bind_eq_ok.mp done
    obtain ⟨declared, set⟩ := setNamed_eq_ok_iff.mp first
    exact (ih absent rest).trans (slot.keeps e.1 declared differs.symm set)

/-- The entry of a field decides its value, since no later entry has its key. -/
theorem Slot.read_eq_ok (slot : s.Slot field read get put) {v : Value}
    (distinct : (entries.map Prod.fst).Nodup) (there : (field, v) ∈ entries)
    (done : s.ofEntries entries = .ok a) : read v = .ok (get a) := by
  obtain ⟨l₁, l₂, rfl⟩ := List.append_of_mem there
  rw [ofEntries, List.foldlM_append] at done
  obtain ⟨a₁, -, done⟩ := bind_eq_ok.mp done
  rw [List.foldlM_cons] at done
  obtain ⟨a₂, own, rest⟩ := bind_eq_ok.mp done
  obtain ⟨b, value, rfl⟩ := slot.set_eq_ok_iff.mp (setNamed_eq_ok_iff.mp own).2
  have later : field ∉ l₂.map Prod.fst := by
    rw [List.map_append, List.map_cons] at distinct
    exact (List.nodup_cons.mp distinct.of_append_right).1
  rw [value, slot.foldlM_keeps later rest, slot.get_put]

/-- A field holds the value of its entry, or its default if there is none. No two values of the
field are read as the same (`exact`). -/
theorem Slot.lookup_getD (slot : s.Slot field read get put) (written : β → Value)
    (exact : ∀ v b, (field, v) ∈ entries → read v = .ok b → v = written b)
    (distinct : (entries.map Prod.fst).Nodup) (done : s.ofEntries entries = .ok a) :
    (entries.lookup field).getD (written (get s.initial)) = written (get a) := by
  cases found : entries.lookup field with
  | none =>
    have absent := Toml.lookup_eq_none_iff.mp found
    rw [Option.getD_none, slot.foldlM_keeps absent done]
  | some v =>
    have there := Toml.mem_of_lookup found
    exact exact v (get a) there (slot.read_eq_ok distinct there done)

end

end FolGraph.Section
