import FolGraph.Proofs.Formula.Position

/-!
# Relabelling

Giving the nodes of a formula new labels, position by position. It changes no position and no
number of a position, and the node at each position has the new label of that position.
-/

namespace FolGraph.Formula

mutual

/-- The formula whose node at a position has the label that the position and the old label give. -/
def relabel (new : List Nat → String → String) : Formula → Formula
  | .node label args => .node (new [] label) (relabelAll new 0 args)

/-- The arguments from the argument number `i` on with their new labels. -/
def relabelAll (new : List Nat → String → String) (i : Nat) : List Formula → List Formula
  | [] => []
  | f :: fs => f.relabel (fun p => new (i :: p)) :: relabelAll new (i + 1) fs

end

@[simp] theorem label_relabel (new : List Nat → String → String) (f : Formula) :
    (f.relabel new).label = new [] f.label := by
  cases f
  rw [relabel, label_node, label_node]

theorem args_relabel (new : List Nat → String → String) (f : Formula) :
    (f.relabel new).args = relabelAll new 0 f.args := by
  cases f
  rw [relabel, args_node, args_node]

@[simp] theorem length_relabelAll (new : List Nat → String → String) (i : Nat)
    (fs : List Formula) : (relabelAll new i fs).length = fs.length := by
  induction fs generalizing i with
  | nil => rfl
  | cons f fs ih => rw [relabelAll, List.length_cons, ih, List.length_cons]

@[simp] theorem length_args_relabel (new : List Nat → String → String) (f : Formula) :
    (f.relabel new).args.length = f.args.length := by
  rw [args_relabel, length_relabelAll]

theorem getElem?_relabelAll (new : List Nat → String → String) (k : Nat) (fs : List Formula)
    (i : Nat) :
    (relabelAll new k fs)[i]? = fs[i]?.map (relabel fun p => new ((k + i) :: p)) := by
  induction fs generalizing k i with
  | nil => rfl
  | cons f fs ih =>
    cases i with
    | zero => rfl
    | succ i =>
      rw [relabelAll, List.getElem?_cons_succ, List.getElem?_cons_succ, ih, Nat.add_right_comm,
        Nat.add_assoc]

theorem getElem?_args_relabel (new : List Nat → String → String) (f : Formula) (i : Nat) :
    (f.relabel new).args[i]? = f.args[i]?.map (relabel fun p => new (i :: p)) := by
  rw [args_relabel, getElem?_relabelAll, Nat.zero_add]

/-- What stands at a position is what stood there, relabelled. -/
theorem sub?_relabel (new : List Nat → String → String) (f : Formula) (p : List Nat) :
    (f.relabel new).sub? p = (f.sub? p).map (relabel fun q => new (p ++ q)) := by
  induction p generalizing f new with
  | nil => simp
  | cons i p ih =>
    rw [sub?, sub?, getElem?_args_relabel]
    cases f.args[i]? with
    | none => rfl
    | some a => exact ih (fun q => new (i :: q)) a

theorem sub?_relabel_of_sub? (new : List Nat → String → String) {f s : Formula} {p : List Nat}
    (hs : f.sub? p = some s) :
    (f.relabel new).sub? p = some (s.relabel fun q => new (p ++ q)) := by
  rw [sub?_relabel, hs, Option.map_some]

theorem exists_of_sub?_relabel {new : List Nat → String → String} {f t : Formula} {p : List Nat}
    (ht : (f.relabel new).sub? p = some t) :
    ∃ s, f.sub? p = some s ∧ t = s.relabel fun q => new (p ++ q) := by
  rw [sub?_relabel] at ht
  obtain ⟨s, hs, rfl⟩ := Option.map_eq_some_iff.mp ht
  exact ⟨s, hs, rfl⟩

/-- The label of what stands at a position is the new label of the position. -/
theorem label_relabel_append (new : List Nat → String → String) (s : Formula) (p : List Nat) :
    (s.relabel fun q => new (p ++ q)).label = new p s.label := by
  rw [label_relabel, List.append_nil]

mutual

@[simp] theorem size_relabel (new : List Nat → String → String) :
    (f : Formula) → (f.relabel new).size = f.size
  | .node label args => by
    rw [relabel, size, size, sizeAll_relabelAll]

@[simp] theorem sizeAll_relabelAll (new : List Nat → String → String) (i : Nat) :
    (fs : List Formula) → sizeAll (relabelAll new i fs) = sizeAll fs
  | [] => rfl
  | f :: fs => by
    rw [relabelAll, sizeAll, sizeAll, size_relabel, sizeAll_relabelAll]

end

theorem take_relabelAll (new : List Nat → String → String) (i k : Nat) (fs : List Formula) :
    (relabelAll new i fs).take k = relabelAll new i (fs.take k) := by
  induction fs generalizing i k with
  | nil => simp [relabelAll]
  | cons f fs ih =>
    cases k with
    | zero => rfl
    | succ k => rw [relabelAll, List.take_succ_cons, List.take_succ_cons, relabelAll, ih]

@[simp] theorem index_relabel (new : List Nat → String → String) (f : Formula) (p : List Nat) :
    (f.relabel new).index p = f.index p := by
  induction p generalizing f new with
  | nil => rw [index_nil, index_nil]
  | cons i p ih =>
    rw [index, index, args_relabel, take_relabelAll, sizeAll_relabelAll, ← args_relabel,
      getElem?_args_relabel]
    cases f.args[i]? with
    | none => rfl
    | some a => simp only [Option.map_some, ih]

mutual

@[simp] theorem positions_relabel (new : List Nat → String → String) :
    (f : Formula) → (f.relabel new).positions = f.positions
  | .node label args => by
    rw [relabel, positions, positions, positionsAll_relabelAll]

theorem positionsAll_relabelAll (new : List Nat → String → String) (i k : Nat) :
    (fs : List Formula) → positionsAll k (relabelAll new i fs) = positionsAll k fs
  | [] => rfl
  | f :: fs => by
    rw [relabelAll, positionsAll, positionsAll, positions_relabel, positionsAll_relabelAll]

end

end FolGraph.Formula
