/-!
Formulas of first-order logic as labelled ordered trees. A label is an operator symbol, a variable
or a functor; nothing else about the source text of a formula is kept.
-/

namespace FolGraph

/-- A formula: a label applied to arguments. -/
inductive Formula where
  | node (label : String) (args : List Formula)
  deriving Repr, Inhabited

namespace Formula

def label : Formula → String
  | .node l _ => l

def args : Formula → List Formula
  | .node _ as => as

def leaf (label : String) : Formula := .node label []

def isLeaf (f : Formula) : Bool := f.args.isEmpty

@[simp] theorem label_node (l : String) (as : List Formula) : (node l as).label = l := rfl

@[simp] theorem args_node (l : String) (as : List Formula) : (node l as).args = as := rfl

mutual

/-- The number of nodes. -/
def size : Formula → Nat
  | .node _ as => 1 + sizeAll as

def sizeAll : List Formula → Nat
  | [] => 0
  | f :: fs => f.size + sizeAll fs

end

mutual

/-- The number of nodes on the longest path from the root. -/
def height : Formula → Nat
  | .node _ as => 1 + heightAll as

def heightAll : List Formula → Nat
  | [] => 0
  | f :: fs => max f.height (heightAll fs)

end

mutual

def decEq : (f g : Formula) → Decidable (f = g)
  | .node l as, .node m bs =>
    if h : l = m then
      match decEqAll as bs with
      | isTrue hs => isTrue (by rw [h, hs])
      | isFalse hs => isFalse (fun e => hs (by injection e))
    else isFalse (fun e => h (by injection e))

def decEqAll : (fs gs : List Formula) → Decidable (fs = gs)
  | [], [] => isTrue rfl
  | [], _ :: _ => isFalse (fun e => nomatch e)
  | _ :: _, [] => isFalse (fun e => nomatch e)
  | f :: fs, g :: gs =>
    match decEq f g with
    | isTrue h =>
      match decEqAll fs gs with
      | isTrue hs => isTrue (by rw [h, hs])
      | isFalse hs => isFalse (fun e => hs (by injection e))
    | isFalse h => isFalse (fun e => h (by injection e))

end

instance : DecidableEq Formula := decEq

theorem size_pos (f : Formula) : 0 < f.size := by
  cases f
  simp only [size]
  omega

theorem height_pos (f : Formula) : 0 < f.height := by
  cases f
  simp only [height]
  omega

end Formula

end FolGraph
