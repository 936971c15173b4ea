import FolGraph.Role
import FolGraph.Symbol

/-!
Formula graphs: directed multigraphs whose arcs carry roles. Nodes are numbered in the order of
their creation, starting from zero, and arcs keep the order of their insertion. Beside the arcs a
graph stores, for every node, the positions of the arcs that leave it and of those that enter it.
-/

namespace FolGraph

structure Node where
  id : Nat
  kind : Kind
  label : String
  deriving DecidableEq, Repr, Inhabited

/-- How messages show a node. -/
def Node.display (n : Node) : String :=
  "LabeledNode(" ++ toString n.id ++ ", " ++ n.kind.displayName ++ ", " ++ n.label ++ ")"

structure Edge where
  source : Nat
  target : Nat
  role : Role
  deriving DecidableEq, Repr, Inhabited

structure Graph where
  nodes : List Node
  edges : List Edge
  outgoing : List (List Nat)
  incoming : List (List Nat)
  deriving DecidableEq, Repr, Inhabited

namespace Graph

def empty : Graph := ⟨[], [], [], []⟩

/-- The number of nodes. -/
def size (g : Graph) : Nat := g.nodes.length

def isEmpty (g : Graph) : Bool := g.nodes.isEmpty

def edgeCount (g : Graph) : Nat := g.edges.length

def node? (g : Graph) (id : Nat) : Option Node := g.nodes[id]?

/-- Appends a node that carries the next free id and whose arcs are still to come. -/
def insertNode (g : Graph) (kind : Kind) (label : String) : Graph :=
  { g with
    nodes := g.nodes ++ [⟨g.size, kind, label⟩]
    outgoing := g.outgoing ++ [[]]
    incoming := g.incoming ++ [[]] }

/-- Appends a node whose kind is that of its label. -/
def addNode (g : Graph) (label : String) : Graph := g.insertNode (.ofLabel label) label

/-- Appends an arc and records its position at both of its ends. -/
def link (g : Graph) (e : Edge) : Graph :=
  { g with
    edges := g.edges ++ [e]
    outgoing := g.outgoing.modify e.source (· ++ [g.edges.length])
    incoming := g.incoming.modify e.target (· ++ [g.edges.length]) }

/-- Whether both ends of an arc are nodes of the graph. -/
def hasEnds (g : Graph) (e : Edge) : Bool := e.source < g.size && e.target < g.size

/-- An arc with an end that is no node of the graph. -/
structure UnknownEnd where
  source : Nat
  target : Nat
  deriving DecidableEq, Repr

def UnknownEnd.message (u : UnknownEnd) : String :=
  "edge " ++ toString u.source ++ " -> " ++ toString u.target ++ " references an unknown node"

/-- Appends an arc between two nodes of the graph. -/
def addEdge (g : Graph) (e : Edge) : Except UnknownEnd Graph :=
  if g.hasEnds e then .ok (g.link e) else .error ⟨e.source, e.target⟩

@[simp] theorem nodes_insertNode (g : Graph) (k : Kind) (l : String) :
    (g.insertNode k l).nodes = g.nodes ++ [⟨g.size, k, l⟩] := rfl

@[simp] theorem edges_insertNode (g : Graph) (k : Kind) (l : String) :
    (g.insertNode k l).edges = g.edges := rfl

@[simp] theorem size_insertNode (g : Graph) (k : Kind) (l : String) :
    (g.insertNode k l).size = g.size + 1 := by
  simp [size]

@[simp] theorem nodes_link (g : Graph) (e : Edge) : (g.link e).nodes = g.nodes := rfl

@[simp] theorem edges_link (g : Graph) (e : Edge) : (g.link e).edges = g.edges ++ [e] := rfl

@[simp] theorem size_link (g : Graph) (e : Edge) : (g.link e).size = g.size := rfl

theorem hasEnds_iff {g : Graph} {e : Edge} :
    g.hasEnds e = true ↔ e.source < g.size ∧ e.target < g.size := by
  simp [hasEnds]

/-- An arc is accepted exactly if both of its ends are nodes. -/
theorem addEdge_eq_ok_iff {g g' : Graph} {e : Edge} :
    g.addEdge e = .ok g' ↔ g.hasEnds e = true ∧ g' = g.link e := by
  unfold addEdge
  by_cases h : g.hasEnds e = true
  · simp [h, eq_comm]
  · simp [h]

/-- The number of arcs, of any role, that enter a node. -/
def inDegree (g : Graph) (id : Nat) : Nat := (g.incoming[id]?.getD []).length

/-- The number of arcs, of any role, that leave a node. -/
def outDegree (g : Graph) (id : Nat) : Nat := (g.outgoing[id]?.getD []).length

/-- The arcs that leave a node, in the order of insertion. -/
def outEdges (g : Graph) (id : Nat) : List Edge :=
  (g.outgoing[id]?.getD []).filterMap (g.edges[·]?)

/-- Where the arcs of one role lead to from a node. -/
def successors (g : Graph) (id : Nat) (role : Role) : List Nat :=
  ((g.outEdges id).filter (·.role == role)).map (·.target)

/-- The arguments of a node, in the order of insertion. -/
def children (g : Graph) (id : Nat) : List Nat := g.successors id .ast

def edgesOfRole (g : Graph) (role : Role) : List Edge := g.edges.filter (·.role == role)

/-- The nodes that no arc enters, in the order of creation. -/
def startingNodes (g : Graph) : List Node := g.nodes.filter fun n => g.inDegree n.id == 0

end Graph

end FolGraph
