import FolGraph.Graph.Basic

/-!
Graphs from stored lists of nodes and arcs. The lists make a graph if the ids number the nodes in
order and every arc runs between two of them; the kinds are kept as stored.
-/

namespace FolGraph.Graph

/-- Why stored lists make no graph. -/
inductive StoredError where
  | misnumberedNode (position id : Nat)
  | danglingEdge (source target nodeCount : Nat)
  deriving DecidableEq, Repr

def StoredError.message : StoredError → String
  | .misnumberedNode p id =>
    "node at position " ++ toString p ++ " carries id " ++ toString id ++
      "; ids must follow creation order"
  | .danglingEdge s t n =>
    "edge " ++ toString s ++ " -> " ++ toString t ++ " references a node outside 0.." ++
      toString n

/-- Appends the nodes, each of which must carry the next free id. -/
def insertStored (g : Graph) : List Node → Except StoredError Graph
  | [] => .ok g
  | n :: ns =>
    if n.id = g.size then (g.insertNode n.kind n.label).insertStored ns
    else .error (.misnumberedNode g.size n.id)

/-- Appends the arcs, each of which must run between nodes of the graph. -/
def linkStored (g : Graph) : List Edge → Except StoredError Graph
  | [] => .ok g
  | e :: es =>
    match g.addEdge e with
    | .ok g' => g'.linkStored es
    | .error _ => .error (.danglingEdge e.source e.target g.size)

/-- The graph with the given nodes and arcs. -/
def ofStored (nodes : List Node) (edges : List Edge) : Except StoredError Graph := do
  (← empty.insertStored nodes).linkStored edges

end FolGraph.Graph
