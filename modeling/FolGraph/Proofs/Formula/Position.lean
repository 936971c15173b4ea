import FolGraph.Formula.Basic
import FolGraph.Graph.Encode
import Mathlib.Data.List.Nodup
import Mathlib.Data.List.Range

/-!
# Positions of a formula

A position is the list of argument numbers on the way from the root. `positions` lists them in
pre-order and `index` counts them in that order: `map_index_positions` says that it numbers the
positions of a formula `0, 1, 2, …` with no gap, so a position and its number name the same node.
-/

namespace FolGraph.Formula

/-- The formula at a position. -/
def sub? : Formula → List Nat → Option Formula
  | f, [] => some f
  | f, i :: p =>
    match f.args[i]? with
    | some a => a.sub? p
    | none => none

/-- The number of a position in pre-order. -/
def index : Formula → List Nat → Nat
  | _, [] => 0
  | f, i :: p =>
    1 + sizeAll (f.args.take i) +
      match f.args[i]? with
      | some a => a.index p
      | none => 0

mutual

/-- The positions in pre-order. -/
def positions : Formula → List (List Nat)
  | .node _ args => [] :: positionsAll 0 args

/-- The positions in the arguments from the argument number `i` on. -/
def positionsAll (i : Nat) : List Formula → List (List Nat)
  | [] => []
  | f :: fs => f.positions.map (i :: ·) ++ positionsAll (i + 1) fs

end

@[simp] theorem sub?_nil (f : Formula) : f.sub? [] = some f := by
  simp only [sub?]

theorem sub?_cons_eq_some {f s : Formula} {i : Nat} {p : List Nat} :
    f.sub? (i :: p) = some s ↔ ∃ a, f.args[i]? = some a ∧ a.sub? p = some s := by
  rw [sub?]
  cases f.args[i]? <;> simp

theorem sub?_cons_of_arg {f a : Formula} {i : Nat} (h : f.args[i]? = some a) (p : List Nat) :
    f.sub? (i :: p) = a.sub? p := by
  rw [sub?, h]

theorem sub?_append {f s : Formula} {p : List Nat} (h : f.sub? p = some s) (q : List Nat) :
    f.sub? (p ++ q) = s.sub? q := by
  induction p generalizing f with
  | nil => rw [List.nil_append, Option.some.inj (h.symm.trans (sub?_nil f))]
  | cons i p ih =>
    obtain ⟨a, ha, hs⟩ := sub?_cons_eq_some.mp h
    rw [List.cons_append, sub?_cons_of_arg ha, ih hs]

theorem sub?_snoc {f s : Formula} {p : List Nat} (h : f.sub? p = some s) (i : Nat) :
    f.sub? (p ++ [i]) = s.args[i]? := by
  rw [sub?_append h, sub?]
  cases s.args[i]? <;> simp

theorem sub?_append_eq_some {f t : Formula} {p q : List Nat} :
    f.sub? (p ++ q) = some t ↔ ∃ s, f.sub? p = some s ∧ s.sub? q = some t := by
  constructor
  · intro h
    induction p generalizing f with
    | nil => exact ⟨f, sub?_nil f, h⟩
    | cons i p ih =>
      obtain ⟨a, ha, hs⟩ := sub?_cons_eq_some.mp h
      obtain ⟨s, hp, hq⟩ := ih hs
      exact ⟨s, (sub?_cons_of_arg ha p).trans hp, hq⟩
  · rintro ⟨s, hp, hq⟩
    rw [sub?_append hp, hq]

theorem sub?_snoc_eq_some {f a : Formula} {p : List Nat} {i : Nat} :
    f.sub? (p ++ [i]) = some a ↔ ∃ s, f.sub? p = some s ∧ s.args[i]? = some a := by
  rw [sub?_append_eq_some]
  constructor
  · rintro ⟨s, hs, ha⟩
    exact ⟨s, hs, by rwa [← sub?_snoc (sub?_nil s) i, List.nil_append]⟩
  · rintro ⟨s, hs, ha⟩
    exact ⟨s, hs, by rwa [← List.nil_append [i], sub?_snoc (sub?_nil s)]⟩

mutual

theorem height_le_size : (f : Formula) → f.height ≤ f.size
  | .node _ args => by
    have := heightAll_le_sizeAll args
    simp only [height, size]
    omega

theorem heightAll_le_sizeAll : (fs : List Formula) → heightAll fs ≤ sizeAll fs
  | [] => Nat.le_refl _
  | f :: fs => by
    have := height_le_size f
    have := heightAll_le_sizeAll fs
    simp only [heightAll, sizeAll]
    omega

end

theorem sizeAll_append (fs gs : List Formula) : sizeAll (fs ++ gs) = sizeAll fs + sizeAll gs := by
  induction fs with
  | nil => simp [sizeAll]
  | cons f fs ih => simp only [List.cons_append, sizeAll, ih, Nat.add_assoc]

theorem sizeAll_take_succ {fs : List Formula} {i : Nat} {a : Formula} (h : fs[i]? = some a) :
    sizeAll (fs.take (i + 1)) = sizeAll (fs.take i) + a.size := by
  rw [List.take_add_one, h, sizeAll_append]
  simp [sizeAll]

@[simp] theorem index_nil (f : Formula) : f.index [] = 0 := by
  simp only [index]

theorem index_cons {f a : Formula} {i : Nat} (h : f.args[i]? = some a) (p : List Nat) :
    f.index (i :: p) = 1 + sizeAll (f.args.take i) + a.index p := by
  rw [index, h]

theorem index_singleton (f : Formula) (i : Nat) :
    f.index [i] = 1 + sizeAll (f.args.take i) := by
  rw [index]
  cases f.args[i]? <;> simp

theorem index_append {f s : Formula} {p : List Nat} (h : f.sub? p = some s) (q : List Nat) :
    f.index (p ++ q) = f.index p + s.index q := by
  induction p generalizing f with
  | nil =>
    rw [List.nil_append, index_nil, Nat.zero_add, Option.some.inj (h.symm.trans (sub?_nil f))]
  | cons i p ih =>
    obtain ⟨a, ha, hs⟩ := sub?_cons_eq_some.mp h
    rw [List.cons_append, index_cons ha, index_cons ha, ih hs]
    omega

/-- The next argument begins where the argument before it ends. -/
theorem index_succ {f a : Formula} {i : Nat} (ha : f.args[i]? = some a) :
    f.index [i + 1] = f.index [i] + a.size := by
  rw [index_singleton, index_singleton, sizeAll_take_succ ha, Nat.add_assoc]

mutual

theorem mem_positions : (f : Formula) → (p : List Nat) →
    (p ∈ f.positions ↔ ∃ s, f.sub? p = some s)
  | .node l args, [] => by
    simp [positions]
  | .node l args, j :: p => by
    have rest := mem_positionsAll 0 args (j :: p)
    simp only [positions, List.mem_cons, reduceCtorEq, false_or, rest, sub?_cons_eq_some,
      args_node, List.cons.injEq, Nat.zero_add]
    constructor
    · rintro ⟨i, q, a, ⟨rfl, rfl⟩, ha, s, hs⟩
      exact ⟨s, a, ha, hs⟩
    · rintro ⟨s, a, ha, hs⟩
      exact ⟨j, p, a, ⟨rfl, rfl⟩, ha, s, hs⟩

theorem mem_positionsAll : (k : Nat) → (fs : List Formula) → (p : List Nat) →
    (p ∈ positionsAll k fs ↔
      ∃ i q a, p = (k + i) :: q ∧ fs[i]? = some a ∧ ∃ s, a.sub? q = some s)
  | k, [], p => by
    simp [positionsAll]
  | k, f :: fs, p => by
    have rest := mem_positionsAll (k + 1) fs p
    simp only [positionsAll, List.mem_append, List.mem_map, rest]
    constructor
    · rintro (⟨q, hq, rfl⟩ | ⟨i, q, a, rfl, ha, hs⟩)
      · exact ⟨0, q, f, rfl, rfl, (mem_positions f q).mp hq⟩
      · exact ⟨i + 1, q, a, by rw [Nat.add_assoc, Nat.add_comm 1 i], ha, hs⟩
    · rintro ⟨i, q, a, rfl, ha, hs⟩
      cases i with
      | zero =>
        obtain rfl : f = a := Option.some.inj ha
        exact Or.inl ⟨q, (mem_positions f q).mpr hs, rfl⟩
      | succ i => exact Or.inr ⟨i, q, a, by rw [Nat.add_assoc, Nat.add_comm 1 i], ha, hs⟩

end

mutual

/-- Pre-order numbers the positions of a formula without a gap. -/
theorem map_index_positions : (f : Formula) → f.positions.map f.index = List.range f.size
  | .node l args => by
    have rest := map_index_positionsAll (.node l args) 0 args rfl
    simp only [positions, List.map_cons, index_nil, rest, List.take_zero, sizeAll, Nat.add_zero,
      size]
    rw [List.range_eq_range', Nat.add_comm, List.range'_succ]

theorem map_index_positionsAll (f : Formula) : (k : Nat) → (fs : List Formula) →
    f.args.drop k = fs →
    (positionsAll k fs).map f.index = List.range' (1 + sizeAll (f.args.take k)) (sizeAll fs)
  | k, [], _ => by
    simp [positionsAll, sizeAll]
  | k, a :: fs, h => by
    have ha : f.args[k]? = some a := by
      rw [← List.head?_drop, h, List.head?_cons]
    have tail : f.args.drop (k + 1) = fs := by
      rw [← List.drop_drop, h, List.drop_one, List.tail_cons]
    have first : (a.positions.map (k :: ·)).map f.index =
        List.range' (1 + sizeAll (f.args.take k)) a.size := by
      rw [List.map_map, List.range'_eq_map_range, ← map_index_positions a, List.map_map]
      exact List.map_congr_left fun p _ => index_cons ha p
    have rest := map_index_positionsAll f (k + 1) fs tail
    rw [positionsAll, List.map_append, first, rest, sizeAll_take_succ ha, ← Nat.add_assoc,
      List.range'_append_1, sizeAll]

end

theorem nodup_map_index (f : Formula) : (f.positions.map f.index).Nodup := by
  rw [map_index_positions]
  exact List.nodup_range

theorem index_lt {f s : Formula} {p : List Nat} (h : f.sub? p = some s) : f.index p < f.size := by
  have member : f.index p ∈ f.positions.map f.index :=
    List.mem_map_of_mem ((mem_positions f p).mpr ⟨s, h⟩)
  rwa [map_index_positions, List.mem_range] at member

theorem index_injective {f s t : Formula} {p q : List Nat} (hp : f.sub? p = some s)
    (hq : f.sub? q = some t) (h : f.index p = f.index q) : p = q :=
  List.inj_on_of_nodup_map (nodup_map_index f) ((mem_positions f p).mpr ⟨s, hp⟩)
    ((mem_positions f q).mpr ⟨t, hq⟩) h

theorem exists_index {f : Formula} {k : Nat} (h : k < f.size) :
    ∃ p s, f.sub? p = some s ∧ f.index p = k := by
  have member : k ∈ f.positions.map f.index := by
    rwa [map_index_positions, List.mem_range]
  obtain ⟨p, hp, hk⟩ := List.mem_map.mp member
  obtain ⟨s, hs⟩ := (mem_positions f p).mp hp
  exact ⟨p, s, hs, hk⟩

/-- The arguments of a node stand in pre-order. -/
theorem index_arg_lt {f s : Formula} {p : List Nat} (h : f.sub? p = some s) {i j : Nat}
    (hij : i < j) (hj : j < s.args.length) : f.index (p ++ [i]) < f.index (p ++ [j]) := by
  rw [index_append h, index_append h, Nat.add_lt_add_iff_left]
  induction hij with
  | refl =>
    rw [index_succ (List.getElem?_eq_getElem (by omega))]
    exact Nat.lt_add_of_pos_right (size_pos _)
  | @step j hij ih =>
    refine Nat.lt_trans (ih (by omega)) ?_
    rw [index_succ (List.getElem?_eq_getElem (by omega))]
    exact Nat.lt_add_of_pos_right (size_pos _)

end FolGraph.Formula
