import FolGraph.Export.Bytes
import Mathlib.Algebra.Order.Ring.Nat

/-!
# Unambiguous bytes

A number that fits into its width, and a list of elements that can be told apart, can be told apart
from whatever bytes follow (`Separable`), so a record of lists can be read from front to back.
-/

namespace FolGraph.Export.Bytes

section
variable {α : Type} {p : α → Prop} {element : α → List UInt8} {as bs : List α}
  {rest rest' : List UInt8}

/-- At the front of any bytes it can be told which of some elements they begin with, and where it
ends. -/
structure Separable (p : α → Prop) (element : α → List UInt8) : Prop where
  inj : ∀ {a b : α} {rest rest' : List UInt8}, p a → p b →
    element a ++ rest = element b ++ rest' → a = b ∧ rest = rest'

theorem littleEndian_injective {width m n : Nat} (hm : m < 256 ^ width) (hn : n < 256 ^ width)
    (h : littleEndian width m = littleEndian width n) : m = n := by
  induction width generalizing m n with
  | zero =>
    rw [Nat.pow_zero] at hm hn
    omega
  | succ width ih =>
    obtain ⟨first, others⟩ := List.cons.inj h
    rw [Nat.pow_succ'] at hm hn
    have high := ih (Nat.div_lt_of_lt_mul hm) (Nat.div_lt_of_lt_mul hn) others
    have low : m % 256 = n % 256 := by simpa using congrArg UInt8.toNat first
    omega

theorem separable_littleEndian (width : Nat) :
    Separable (· < 256 ^ width) (littleEndian width) := by
  constructor
  intro m n rest rest' hm hn h
  obtain ⟨same, rest⟩ := List.append_inj h (by simp)
  exact ⟨littleEndian_injective hm hn same, rest⟩

/-- Elements one after the other are told apart if it is known how many they are. -/
theorem Separable.flatMap_append_inj (separable : Separable p element)
    (same : as.length = bs.length) (ha : ∀ a ∈ as, p a) (hb : ∀ b ∈ bs, p b)
    (h : as.flatMap element ++ rest = bs.flatMap element ++ rest') : as = bs ∧ rest = rest' := by
  induction as generalizing bs with
  | nil =>
    obtain rfl := List.length_eq_zero_iff.mp same.symm
    exact ⟨rfl, h⟩
  | cons a as ih =>
    obtain ⟨b, bs, rfl⟩ := List.exists_cons_of_length_eq_add_one same.symm
    rw [List.flatMap_cons, List.flatMap_cons, List.append_assoc, List.append_assoc] at h
    rw [List.forall_mem_cons] at ha hb
    obtain ⟨rfl, others⟩ := separable.inj ha.1 hb.1 h
    obtain ⟨rfl, after⟩ := ih (Nat.succ.inj same) ha.2 hb.2 others
    exact ⟨rfl, after⟩

theorem Separable.list_append_inj (separable : Separable p element)
    (same : as.length = bs.length) (ha : ∀ a ∈ as, p a) (hb : ∀ b ∈ bs, p b)
    (h : list element as ++ rest = list element bs ++ rest') : as = bs ∧ rest = rest' := by
  rw [list, list, List.append_assoc, List.append_assoc] at h
  obtain ⟨_, h⟩ := List.append_inj h (by simp)
  exact separable.flatMap_append_inj same ha hb h

/-- The front of a list says how many elements it has. -/
theorem length_eq_of_list_append (ha : as.length < 2 ^ 64) (hb : bs.length < 2 ^ 64)
    (h : list element as ++ rest = list element bs ++ rest') : as.length = bs.length := by
  rw [list, list, List.append_assoc, List.append_assoc] at h
  exact ((separable_littleEndian 8).inj ha hb h).1

theorem Separable.list (separable : Separable p element) :
    Separable (fun as => as.length < 2 ^ 64 ∧ ∀ a ∈ as, p a) (list element) := by
  constructor
  intro as bs rest rest' ha hb h
  exact separable.list_append_inj (length_eq_of_list_append ha.1 hb.1 h) ha.2 hb.2 h

end

/-! ## Columns -/

/-- Columns of words with the same number of rows. -/
def Columns (rows : Nat) (columns : List (List Nat)) : Prop :=
  ∀ ns ∈ columns, ns.length = rows ∧ ∀ n ∈ ns, n < 2 ^ 32

theorem separable_words (rows : Nat) :
    Separable (fun ns => ns.length = rows ∧ ∀ n ∈ ns, n < 2 ^ 32) words := by
  constructor
  intro ms ns rest rest' hm hn h
  exact (separable_littleEndian 4).list_append_inj (hm.1.trans hn.1.symm) hm.2 hn.2 h

theorem length_words (ns : List Nat) : (words ns).length = 8 + 4 * ns.length := by
  rw [words, list, List.length_append, length_littleEndian]
  simp [List.length_flatMap, List.map_const', Nat.mul_comm]

theorem length_flatMap_words {rows : Nat} {columns : List (List Nat)}
    (shape : Columns rows columns) :
    (columns.flatMap words).length = columns.length * (8 + 4 * rows) := by
  induction columns with
  | nil => simp
  | cons ns columns ih =>
    obtain ⟨first, others⟩ := List.forall_mem_cons.mp shape
    rw [List.flatMap_cons, List.length_append, length_words, first.1, ih others, List.length_cons,
      Nat.add_mul, Nat.one_mul, Nat.add_comm]

/-- Columns are told apart even if the numbers of their rows do not fit into eight bytes, as these
numbers follow from how many bytes there are. -/
theorem columns_injective {rows rows' : Nat} {columns columns' : List (List Nat)}
    (shape : Columns rows columns) (shape' : Columns rows' columns')
    (h : columns.flatMap words = columns'.flatMap words) (some : columns ≠ [])
    (same : columns.length = columns'.length) : columns = columns' := by
  have lengths := congrArg List.length h
  rw [length_flatMap_words shape, length_flatMap_words shape', ← same] at lengths
  have width := Nat.eq_of_mul_eq_mul_left (List.length_pos_iff.mpr some) lengths
  obtain rfl : rows = rows' := by omega
  exact ((separable_words rows).flatMap_append_inj same shape shape' (congrArg (· ++ []) h)).1

end FolGraph.Export.Bytes
