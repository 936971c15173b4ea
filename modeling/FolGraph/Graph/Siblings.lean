import FolGraph.Graph.Basic

/-!
The order of the arguments of a node, read off the arcs that run between them. Arguments without
such arcs keep the order of insertion; otherwise the arcs must be `ncs` arcs that form one path
through all arguments, and the path is the order. A `ddg` arc from a declaration of a quantifier
into its body says nothing about the order and is left out.
-/

namespace FolGraph

/-- The last position of an element in a list. -/
def lastIndexOf? (x : Nat) (xs : List Nat) : Option Nat :=
  (xs.reverse.idxOf? x).map fun i => xs.length - 1 - i

namespace Graph

/-- Whether an arc between the arguments at two positions is one from a declaration of a quantifier
into the body, which is the argument inserted last. -/
def bindsBody (label : String) (count : Nat) (arc : Edge) : Bool :=
  isQuantifier label && arc.role == .ddg && arc.source + 1 < count && arc.target + 1 == count

/-- The arcs between the arguments of a node that bear on their order, with positions in the list
of arguments in place of ids. -/
def siblingArcs (g : Graph) (label : String) (children : List Nat) : List Edge :=
  (children.zipIdx.flatMap fun (child, i) =>
    (g.outEdges child).filterMap fun e =>
      (lastIndexOf? e.target children).map fun j => ⟨i, j, e.role⟩).filter
    fun arc => !bindsBody label children.length arc

/-- The position that a position is linked to. -/
def nextOf? (arcs : List Edge) (i : Nat) : Option Nat :=
  (arcs.find? (·.source == i)).map (·.target)

/-- Follows the arcs from a position for at most `fuel` positions. -/
def follow (arcs : List Edge) : Nat → Nat → List Nat
  | 0, _ => []
  | fuel + 1, i =>
    i :: match nextOf? arcs i with
      | none => []
      | some j => follow arcs fuel j

/-- The positions below `count` in the order of the path that the arcs form, if they are `ncs` arcs
that form one simple path through all of them. -/
def pathOrder? (arcs : List Edge) (count : Nat) : Option (List Nat) :=
  if arcs.all (·.role == .ncs) && (arcs.map (·.source)).Nodup && (arcs.map (·.target)).Nodup then
    match (List.range count).filter (!(arcs.map (·.target)).contains ·) with
    | [head] =>
      let path := follow arcs (count + 1) head
      if path.length = count then some path else none
    | _ => none
  else none

/-- The arguments of a node with a given label in their order, if they have one. -/
def orderSiblings? (g : Graph) (label : String) (children : List Nat) : Option (List Nat) :=
  if children.length < 2 then some children
  else
    let arcs := g.siblingArcs label children
    if arcs.isEmpty then some children
    else (pathOrder? arcs children.length).map fun path => path.filterMap (children[·]?)

end Graph

end FolGraph
