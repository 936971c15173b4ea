import FolGraph.Formula.Basic
import FolGraph.Symbol

/-!
Equality of formulas up to the order of operands. The arguments of an unordered operator are
compared as multisets and all other arguments pairwise.
-/

namespace FolGraph

/-- Removes the first element that passes the test; the last element moves to its place. -/
def removeFirst {α : Type} (test : α → Bool) : List α → Option (List α)
  | [] => none
  | a :: as =>
    if test a then some (as.getLast?.toList ++ as.dropLast)
    else (removeFirst test as).map (a :: ·)

namespace Formula

mutual

/-- Equality up to the order of the operands of unordered operators. -/
def isEquivalent : Formula → Formula → Bool
  | .node l as, .node m bs =>
    l == m && as.length == bs.length &&
      if isUnordered l then matchAnyOrder as bs else matchInOrder as bs

/-- Whether each formula on the left takes an equivalent one, not taken before, on the right. -/
def matchAnyOrder : List Formula → List Formula → Bool
  | [], _ => true
  | f :: fs, gs =>
    match removeFirst f.isEquivalent gs with
    | some rest => matchAnyOrder fs rest
    | none => false

def matchInOrder : List Formula → List Formula → Bool
  | f :: fs, g :: gs => f.isEquivalent g && matchInOrder fs gs
  | _, _ => true

end

end Formula

end FolGraph
