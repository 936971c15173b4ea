import FolGraph.Formula.Basic
import FolGraph.Graph.Basic

/-!
The graph of a formula. Its nodes are the nodes of the formula in pre-order, so the root has id 0.
Every argument is entered by an `ast` arc from its parent; an argument of an ordinary application
also by an `ncs` arc from the argument before it; and an occurrence of a declared name by a `ddg`
arc from its innermost declaration. The arguments of an unordered operator or a quantifier are not
chained, and a declaration sees no declaration made outside it.
-/

namespace FolGraph

/-- How the arguments of a label are laid out. -/
inductive Layout where
  /-- Each argument is linked to the next one. -/
  | chained
  /-- The arguments stand side by side. -/
  | unchained
  /-- All arguments but the last declare names for the last one. -/
  | binding
  deriving DecidableEq, Repr

def Layout.ofLabel (label : String) : Layout :=
  if isQuantifier label then .binding
  else if isUnordered label then .unchained
  else .chained

/-- The declarations in force, each a name and the node that declares it; a name occurs once. -/
abbrev Scope := List (String × Nat)

namespace Scope

/-- Declares a name at a node; an earlier declaration of the name is no longer in force. -/
def declare (s : Scope) (name : String) (id : Nat) : Scope :=
  s.filter (·.1 != name) ++ [(name, id)]

/-- The nodes that declare a name. -/
def binders (s : Scope) (name : String) : List Nat :=
  (s.filter (·.1 == name)).map (·.2)

end Scope

/-- Where a node stands relative to the nodes before it. -/
structure Place where
  parent : Option Nat
  previous : Option Nat
  scope : Scope
  deriving DecidableEq, Repr

namespace Place

def root : Place := ⟨none, none, []⟩

/-- The arcs that enter a node with a given id and label. -/
def arrivals (p : Place) (id : Nat) (label : String) : List Edge :=
  (p.parent.toList.map fun s => ⟨s, id, .ast⟩) ++
    (p.previous.toList.map fun s => ⟨s, id, .ncs⟩) ++
    (p.scope.binders label).map fun s => ⟨s, id, .ddg⟩

end Place

namespace Formula

mutual

/-- The labels in pre-order. -/
def labels : Formula → List String
  | .node label args => label :: labelsAll args

def labelsAll : List Formula → List String
  | [] => []
  | f :: fs => f.labels ++ labelsAll fs

end

mutual

theorem length_labels : (f : Formula) → f.labels.length = f.size
  | .node _ args => by
    have rest := length_labelsAll args
    simp only [labels, size, List.length_cons]
    omega

theorem length_labelsAll : (fs : List Formula) → (labelsAll fs).length = sizeAll fs
  | [] => rfl
  | f :: fs => by
    have first := length_labels f
    have rest := length_labelsAll fs
    simp only [labelsAll, sizeAll, List.length_append]
    omega

end

mutual

/-- The arcs that enter the nodes of a formula whose root has the given id. -/
def arcs (place : Place) (id : Nat) : Formula → List Edge
  | .node label args =>
    place.arrivals id label ++
      arcsAll (.ofLabel label) id place.scope none (id + 1) args

/-- The arcs that enter the nodes of the remaining arguments of a node; the first of them has the
id `next` and follows the argument `previous`, if arguments are chained. -/
def arcsAll (layout : Layout) (parent : Nat) (scope : Scope) (previous : Option Nat)
    (next : Nat) : List Formula → List Edge
  | [] => []
  | f :: fs =>
    match layout with
    | .chained =>
      f.arcs ⟨some parent, previous, scope⟩ next ++
        arcsAll layout parent scope (some next) (next + f.size) fs
    | .unchained =>
      f.arcs ⟨some parent, none, scope⟩ next ++
        arcsAll layout parent scope none (next + f.size) fs
    | .binding =>
      f.arcs ⟨some parent, none, if fs.isEmpty then scope else []⟩ next ++
        arcsAll layout parent (scope.declare f.label next) none (next + f.size) fs

end

/-- The id of the root in the graph of a formula. -/
def rootId : Nat := 0

/-- The graph of a formula. -/
def encode (f : Formula) : Graph :=
  (f.arcs .root rootId).foldl .link (f.labels.foldl .addNode .empty)

end Formula

end FolGraph
