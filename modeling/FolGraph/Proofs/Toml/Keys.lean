import Mathlib.Data.List.Nodup
import Mathlib.Data.List.Perm.Basic

/-!
# Entries and their keys

Where no key comes twice, looking a key up finds the one entry that has it, in any order of the
entries.
-/

namespace FolGraph.Toml

variable {α : Type} {entries entries' : List (String × α)} {key : String} {a : α}

theorem mem_of_lookup (found : entries.lookup key = some a) : (key, a) ∈ entries := by
  obtain ⟨l₁, l₂, rfl, -⟩ := List.lookup_eq_some_iff.mp found
  exact List.mem_append_right l₁ List.mem_cons_self

theorem lookup_eq_none_iff : entries.lookup key = none ↔ key ∉ entries.map Prod.fst := by
  rw [List.lookup_eq_none_iff, List.mem_map]
  constructor
  · rintro absent ⟨e, mem, rfl⟩
    simpa using absent e mem
  · intro absent e mem
    rw [bne_iff_ne]
    rintro rfl
    exact absent ⟨e, mem, rfl⟩

theorem lookup_eq_some_iff (distinct : (entries.map Prod.fst).Nodup) :
    entries.lookup key = some a ↔ (key, a) ∈ entries := by
  refine ⟨mem_of_lookup, fun mem => List.lookup_eq_some_iff.mpr ?_⟩
  obtain ⟨l₁, l₂, rfl⟩ := List.append_of_mem mem
  refine ⟨l₁, l₂, rfl, fun e before => ?_⟩
  rw [List.map_append, List.map_cons] at distinct
  have apart := List.disjoint_of_nodup_append distinct (List.mem_map_of_mem before)
  rw [bne_iff_ne]
  rintro rfl
  exact apart List.mem_cons_self

theorem lookup_perm (distinct : (entries.map Prod.fst).Nodup) (perm : entries.Perm entries')
    (key : String) : entries'.lookup key = entries.lookup key := by
  have distinct' : (entries'.map Prod.fst).Nodup := (perm.map Prod.fst).nodup_iff.mp distinct
  apply Option.ext
  intro a
  rw [lookup_eq_some_iff distinct, lookup_eq_some_iff distinct', perm.mem_iff]

end FolGraph.Toml
