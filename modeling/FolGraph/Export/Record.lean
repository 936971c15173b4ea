import FolGraph.Export.Bytes
import FolGraph.Graph.Basic
import FolGraph.Json.Basic

/-!
The records that graphs are exported as. Nodes appear in the order of their ids and arcs in the
order of insertion. Labels are left out; one of the records leaves out the roles of arcs as well.
-/

namespace FolGraph.Export

open Bytes

def numbers (ns : List Nat) : Json := .array (ns.map Json.number)

/-- Kinds and roles as ordinals, and the arcs as parallel lists. -/
structure PygRecord where
  kinds : List Nat
  sources : List Nat
  targets : List Nat
  roles : List Nat
  deriving DecidableEq, Repr

namespace PygRecord

def ofGraph (g : Graph) : PygRecord :=
  { kinds := g.nodes.map fun n => n.kind.ordinal
    sources := g.edges.map fun e => e.source
    targets := g.edges.map fun e => e.target
    roles := g.edges.map fun e => e.role.ordinal }

def toJson (r : PygRecord) : Json :=
  .object [("x", numbers r.kinds), ("edge_index_source", numbers r.sources),
    ("edge_index_target", numbers r.targets), ("edge_attr", numbers r.roles)]

def toBytes (r : PygRecord) : List UInt8 :=
  words r.kinds ++ words r.sources ++ words r.targets ++ words r.roles

end PygRecord

/-- Each kind as an indicator over all kinds, and the arcs without roles as parallel lists. -/
structure DglRecord where
  features : List (List Nat)
  sources : List Nat
  targets : List Nat
  deriving DecidableEq, Repr

namespace DglRecord

/-- A one at the ordinal of the kind and zeros elsewhere. -/
def feature (k : Kind) : List Nat := Kind.all.map fun l => if l = k then 1 else 0

def ofGraph (g : Graph) : DglRecord :=
  { features := g.nodes.map fun n => feature n.kind
    sources := g.edges.map fun e => e.source
    targets := g.edges.map fun e => e.target }

def toJson (r : DglRecord) : Json :=
  .object [("ndata", .array (r.features.map fun f => .object [("feature", numbers f)])),
    ("source", numbers r.sources), ("target", numbers r.targets)]

def toBytes (r : DglRecord) : List UInt8 :=
  list (list (littleEndian 1)) r.features ++ words r.sources ++ words r.targets

end DglRecord

end FolGraph.Export
