import FolGraph.Graph.Basic

/-!
Drawings of graphs in the DOT language: one line for each node and each arc, between fixed lines.
A node is named by its label and its id together, so that equal labels stay apart.
-/

namespace FolGraph.Export.Dot

/-- The characters that stand for a character within quotes. -/
def escapeChar (c : Char) : List Char :=
  if c = '\\' then ['\\', '\\']
  else if c = '"' then ['\\', '"']
  else if c = '\n' then ['\\', 'n']
  else [c]

def escape (cs : List Char) : List Char := cs.flatMap escapeChar

/-- The name of a node, escaped. -/
def nodeKey (n : Node) : List Char := escape (n.label.toList ++ Nat.toDigits 10 n.id)

def shape : Kind → String
  | .conjunction | .disjunction | .negation => "diamond"
  | .universal | .existential => "hexagon"
  | .equality | .inequality => "box"
  | .var => "ellipse"
  | .application => "box"

def fillColor : Kind → String
  | .conjunction | .disjunction | .negation => "#f9e2af"
  | .universal | .existential => "#cba6f7"
  | .equality | .inequality => "#89b4fa"
  | .var => "#a6e3a1"
  | .application => "#fab387"

def edgeStyle : Role → String
  | .ast => "style=solid"
  | .ncs => "style=dashed, color=\"#1e66f5\""
  | .ddg => "style=dotted, color=\"#d20f39\""

/-- The line of a node. -/
def nodeLine (n : Node) : List Char :=
  "    \"".toList ++ nodeKey n ++ "\" [label=\"".toList ++ escape n.label.toList ++
    "\", shape=".toList ++ (shape n.kind).toList ++ ", style=\"filled\", fillcolor=\"".toList ++
    (fillColor n.kind).toList ++ "\"];".toList

/-- The line of an arc between two nodes. -/
def edgeLine (source target : Node) (role : Role) : List Char :=
  "    \"".toList ++ nodeKey source ++ "\" -> \"".toList ++ nodeKey target ++
    "\" [label=\"".toList ++ role.displayName.toList ++ "\", ".toList ++ (edgeStyle role).toList ++
    "];".toList

/-- The line of an arc of a graph, if it runs between nodes. -/
def edgeLine? (g : Graph) (e : Edge) : Option (List Char) := do
  let source ← g.node? e.source
  let target ← g.node? e.target
  some (edgeLine source target e.role)

def header : List (List Char) :=
  ["digraph \x7b", "    rankdir=TB;", "    node [fontname=\"Helvetica\", fontsize=12];",
    "    edge [fontname=\"Helvetica\", fontsize=10];", ""].map String.toList

def lines (g : Graph) : List (List Char) :=
  header ++ g.nodes.map nodeLine ++ [[]] ++ g.edges.filterMap (edgeLine? g) ++ [['\x7d']]

/-- The drawing of a graph. -/
def text (g : Graph) : String := String.ofList (List.intercalate ['\n'] (lines g))

end FolGraph.Export.Dot
