import FolGraph.Formula.Arity
import FolGraph.Graph.Siblings

/-!
The formula of a graph. The root is the only node that no arc enters, and the arguments of a node
are the targets of its `ast` arcs in their order as siblings. Every node must be reached exactly
once. A strict reading also holds operators to their arity.
-/

namespace FolGraph

/-- Why a graph is not the graph of a formula. -/
inductive DecodeError where
  | noStartingNode
  | multipleStartingNodes (first second : Node)
  | invalidChildArrangement (parent : Node)
  | nonTerminalNameNode (node : Node) (successors : Nat)
  | wrongSuccessorCount (node : Node) (expected : Arity) (found : Nat)
  | revisitedNode (node : Node)
  | unreachableNodes (count : Nat)
  /-- An arc leads to an id that no node carries; a graph made of nodes and arcs has none. -/
  | unknownNode (id : Nat)
  deriving DecidableEq, Repr

def DecodeError.message : DecodeError → String
  | .noStartingNode => "no starting node"
  | .multipleStartingNodes a b =>
    "there are at least two starting nodes: " ++ a.display ++ " and " ++ b.display
  | .invalidChildArrangement p =>
    "arguments of " ++ p.display ++ " must be either isolated or forming a linked list"
  | .nonTerminalNameNode n k =>
    "name node must be terminal, but " ++ n.display ++ " has " ++ toString k ++ " successors"
  | .wrongSuccessorCount n expected found =>
    n.display ++ " must have " ++ expected.text ++ " successors, but has " ++ toString found
  | .revisitedNode n => n.display ++ " is reached twice; the AST edges do not form a tree"
  | .unreachableNodes count =>
    toString count ++ " nodes are not reachable from the starting node"
  | .unknownNode id => "node " ++ toString id ++ " does not exist"

namespace Graph

/-- The only node that no arc enters. -/
def startingNode (g : Graph) : Except DecodeError Node :=
  match g.startingNodes with
  | [] => .error .noStartingNode
  | [n] => .ok n
  | first :: second :: _ => .error (.multipleStartingNodes first second)

/-- The node with a given id, unless it has been visited before. -/
def enter (g : Graph) (id : Nat) (visited : List Nat) : Except DecodeError Node :=
  match g.node? id with
  | none => .error (.unknownNode id)
  | some node => if visited.contains id then .error (.revisitedNode node) else .ok node

/-- The arguments of a node in their order. -/
def arguments (g : Graph) (node : Node) : Except DecodeError (List Nat) :=
  match g.orderSiblings? node.label (g.children node.id) with
  | some children => .ok children
  | none => .error (.invalidChildArrangement node)

/-- Refuses a declaration that has arguments. -/
def checkDeclarations (g : Graph) : List Nat → Except DecodeError Unit
  | [] => .ok ()
  | id :: ids =>
    match g.children id, g.node? id with
    | [], _ => g.checkDeclarations ids
    | _, none => .error (.unknownNode id)
    | successors, some node => .error (.nonTerminalNameNode node successors.length)

/-- Holds a node to the arity of its label; the arguments are given in their order. -/
def checkArity (g : Graph) (node : Node) (children : List Nat) : Except DecodeError Unit :=
  match Arity.ofLabel? node.label with
  | none => .ok ()
  | some arity =>
    if !arity.admits children.length then
      .error (.wrongSuccessorCount node arity children.length)
    else if isQuantifier node.label then g.checkDeclarations children.dropLast
    else .ok ()

/-- Reads formulas one after the other, each from the nodes that those before it left unvisited. -/
def readAll {ε : Type} (read : Nat → List Nat → Except ε (Formula × List Nat)) :
    List Nat → List Nat → Except ε (List Formula × List Nat)
  | [], visited => .ok ([], visited)
  | id :: ids, visited => do
    let (f, visited) ← read id visited
    let (fs, visited) ← readAll read ids visited
    .ok (f :: fs, visited)

/-- Reads the formula below a node and adds its nodes to those visited. The fuel bounds the length
of the path to a leaf; a path with more nodes than the graph would visit one of them twice. -/
def read (g : Graph) (strict : Bool) :
    Nat → Nat → List Nat → Except DecodeError (Formula × List Nat)
  | 0, id, visited => do
    let node ← g.enter id visited
    .error (.revisitedNode node)
  | fuel + 1, id, visited => do
    let node ← g.enter id visited
    let children ← g.arguments node
    if strict then g.checkArity node children
    let (args, visited) ← readAll (g.read strict fuel) children (id :: visited)
    .ok (.node node.label args, visited)

/-- The formula that a graph stands for. -/
def decode (g : Graph) (strict : Bool) : Except DecodeError Formula := do
  let root ← g.startingNode
  let (f, visited) ← g.read strict g.size root.id []
  match (g.nodes.filter (!visited.contains ·.id)).length with
  | 0 => .ok f
  | count => .error (.unreachableNodes count)

end Graph

end FolGraph
