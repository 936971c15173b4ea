import FolGraph.Proofs.Graph.Built
import Mathlib.Algebra.BigOperators.Group.Finset.Piecewise

/-!
# Graphs under calls

A graph holds its nodes, its arcs and two records of positions, and the calls that append to it
update them one after the other. `Reached.consistent` says that they stay in step however a graph
is loaded and called, refused calls included: the records are the positions of the arcs at each
node, so every query can be answered from the arcs alone, and equal nodes and arcs make equal
graphs.
-/

namespace FolGraph.Graph

/-- The calls that append to a graph. -/
inductive Call where
  | addNode (label : String)
  | addEdge (e : Edge)
  deriving DecidableEq, Repr

/-- The graph after a call. A call that is refused returns no graph, and the old one stays. -/
def perform (g : Graph) : Call → Graph
  | .addNode label => g.addNode label
  | .addEdge e =>
    match g.addEdge e with
    | .ok g' => g'
    | .error _ => g

/-- The graphs that calls lead to from the empty graph or from a graph that was loaded. -/
inductive Reached : Graph → Prop where
  | empty : Reached .empty
  | stored {nodes : List Node} {edges : List Edge} {g : Graph} :
    ofStored nodes edges = .ok g → Reached g
  | call {g : Graph} (c : Call) : Reached g → Reached (g.perform c)

/-- The positions of the arcs that pass a test, from the first to the last. -/
def PositionsOf (edges : List Edge) (test : Edge → Prop) (positions : List Nat) : Prop :=
  positions.Pairwise (· < ·) ∧
    ∀ k, k ∈ positions ↔ ∃ e, edges[k]? = some e ∧ test e

/-- What a graph records and answers is what its nodes and arcs say. -/
structure Consistent (g : Graph) : Prop where
  ids : ∀ (i : Nat) (n : Node), g.nodes[i]? = some n → n.id = i
  ends : ∀ e ∈ g.edges, e.source < g.size ∧ e.target < g.size
  /-- There is one record for each node. -/
  records : g.outgoing.length = g.size ∧ g.incoming.length = g.size
  outgoing : ∀ (v : Nat) (ps : List Nat), g.outgoing[v]? = some ps →
    PositionsOf g.edges (·.source = v) ps
  incoming : ∀ (v : Nat) (ps : List Nat), g.incoming[v]? = some ps →
    PositionsOf g.edges (·.target = v) ps
  outEdges : ∀ v, g.outEdges v = g.edges.filter (·.source == v)
  successors : ∀ v role, g.successors v role =
    (g.edges.filter fun e => e.source == v && e.role == role).map (·.target)
  children : ∀ v, g.children v =
    (g.edges.filter fun e => e.source == v && e.role == .ast).map (·.target)
  inDegree : ∀ v, g.inDegree v = g.edges.countP (·.target == v)
  outDegree : ∀ v, g.outDegree v = g.edges.countP (·.source == v)
  unknown : ∀ v, g.size ≤ v → g.inDegree v = 0 ∧ g.outDegree v = 0
  sum_inDegree : ∑ v ∈ Finset.range g.size, g.inDegree v = g.edgeCount
  sum_outDegree : ∑ v ∈ Finset.range g.size, g.outDegree v = g.edgeCount
  startingNodes : g.startingNodes = g.nodes.filter fun n => ∀ e ∈ g.edges, e.target ≠ n.id

/-! ## Calls -/

theorem addEdge_of_unknown_end {g : Graph} {e : Edge}
    (unknown : g.size ≤ e.source ∨ g.size ≤ e.target) :
    g.addEdge e = .error ⟨e.source, e.target⟩ := by
  have outside : g.hasEnds e ≠ true := by
    rw [ne_eq, hasEnds_iff]
    omega
  rw [addEdge, if_neg outside]

theorem perform_of_unknown_end {g : Graph} {e : Edge}
    (unknown : g.size ≤ e.source ∨ g.size ≤ e.target) : g.perform (.addEdge e) = g := by
  rw [perform, addEdge_of_unknown_end unknown]

theorem Built.perform {g : Graph} (built : g.Built) (c : Call) : (g.perform c).Built := by
  cases c with
  | addNode label => exact built.addNode label
  | addEdge e =>
    cases added : g.addEdge e with
    | ok g' =>
      have after : g.perform (.addEdge e) = g' := by rw [Graph.perform, added]
      rw [after]
      exact built.addEdge added
    | error u =>
      have kept : g.perform (.addEdge e) = g := by rw [Graph.perform, added]
      rwa [kept]

theorem Reached.built {g : Graph} (reached : g.Reached) : g.Built := by
  induction reached with
  | empty => exact .empty
  | stored loaded => exact .stored loaded
  | call c _ ih => exact ih.perform c

theorem Reached.foldl_perform {g : Graph} (reached : g.Reached) (calls : List Call) :
    (calls.foldl perform g).Reached := by
  induction calls generalizing g with
  | nil => exact reached
  | cons c calls ih => exact ih (reached.call c)

/-! ## Records and queries -/

theorem positionsOf_findIdxs (edges : List Edge) (endOf : Edge → Nat) (v : Nat) :
    PositionsOf edges (endOf · = v) (edges.findIdxs (endOf · == v)) := by
  refine ⟨List.pairwise_findIdxs, fun k => ?_⟩
  rw [List.mem_findIdxs_iff_exists_getElem_pos]
  constructor
  · rintro ⟨hk, passed⟩
    exact ⟨edges[k], List.getElem?_eq_getElem hk, by simpa using passed⟩
  · rintro ⟨e, found, rfl⟩
    obtain ⟨hk, rfl⟩ := List.getElem?_eq_some_iff.mp found
    exact ⟨hk, by simp⟩

/-- Counted at one of their ends, node by node, the arcs are counted once each. -/
theorem sum_countP_eq_length {edges : List Edge} {count : Nat} (endOf : Edge → Nat)
    (inside : ∀ e ∈ edges, endOf e < count) :
    ∑ v ∈ Finset.range count, edges.countP (endOf · == v) = edges.length := by
  induction edges with
  | nil => simp
  | cons e es ih =>
    obtain ⟨here, rest⟩ := List.forall_mem_cons.mp inside
    have once : ∑ v ∈ Finset.range count, (if endOf e == v then 1 else 0) = 1 := by
      simp [here]
    simp only [List.countP_cons, Finset.sum_add_distrib, ih rest, once, List.length_cons]

theorem consistent_of_sound {g : Graph} (sound : g.Sound) : g.Consistent where
  ids := sound.ids
  ends e he := hasEnds_iff.mp (sound.ends e he)
  records := by simp [sound.outgoing, sound.incoming]
  outgoing v ps found := by
    have record := sound.outgoing_getD v
    rw [found, Option.getD_some] at record
    exact record ▸ positionsOf_findIdxs g.edges Edge.source v
  incoming v ps found := by
    have record := sound.incoming_getD v
    rw [found, Option.getD_some] at record
    exact record ▸ positionsOf_findIdxs g.edges Edge.target v
  outEdges := sound.outEdges_eq
  successors := sound.successors_eq
  children := sound.children_eq
  inDegree := sound.inDegree_eq
  outDegree := sound.outDegree_eq
  unknown v outside := by
    simp only [sound.inDegree_eq, sound.outDegree_eq, List.countP_eq_zero, beq_iff_eq]
    refine ⟨fun e he => ?_, fun e he => ?_⟩ <;>
      · have inside := hasEnds_iff.mp (sound.ends e he)
        omega
  sum_inDegree := by
    simp only [sound.inDegree_eq]
    exact sum_countP_eq_length Edge.target fun e he => (hasEnds_iff.mp (sound.ends e he)).2
  sum_outDegree := by
    simp only [sound.outDegree_eq]
    exact sum_countP_eq_length Edge.source fun e he => (hasEnds_iff.mp (sound.ends e he)).1
  startingNodes := by
    apply List.filter_congr
    intro n _
    rw [sound.inDegree_eq, Bool.eq_iff_iff]
    simp [List.countP_eq_zero]

/-- The records of a graph are determined by its nodes and arcs. -/
theorem Sound.eq_of_nodes_of_edges {g g' : Graph} (sound : g.Sound) (sound' : g'.Sound)
    (nodes : g'.nodes = g.nodes) (edges : g'.edges = g.edges) : g' = g := by
  have size : g'.size = g.size := congrArg List.length nodes
  have outgoing : g'.outgoing = g.outgoing := by
    rw [sound.outgoing, sound'.outgoing, size, edges]
  have incoming : g'.incoming = g.incoming := by
    rw [sound.incoming, sound'.incoming, size, edges]
  cases g
  cases g'
  simp_all

/-! ## Whatever the calls -/

/-- Graphs stay consistent under all calls, of which those for an arc with an unknown end change
nothing, and there are no two graphs with the same nodes and arcs. -/
theorem Reached.consistent {g : Graph} (reached : g.Reached) :
    g.Consistent ∧
      (∀ e, g.size ≤ e.source ∨ g.size ≤ e.target →
        g.addEdge e = .error ⟨e.source, e.target⟩ ∧ g.perform (.addEdge e) = g) ∧
      ∀ g' : Graph, g'.Reached → g'.nodes = g.nodes → g'.edges = g.edges → g' = g := by
  have sound := reached.built.sound
  refine ⟨consistent_of_sound sound, fun e unknown => ?_, fun g' reached' nodes edges => ?_⟩
  · exact ⟨addEdge_of_unknown_end unknown, perform_of_unknown_end unknown⟩
  · exact sound.eq_of_nodes_of_edges reached'.built.sound nodes edges

/-- A loaded node with a kind that is not that of its label, to which a loop, an arc with an
unknown end and parallel arcs to a new node are added. -/
def looped : Graph :=
  [.addEdge ⟨0, 0, .ncs⟩, .addEdge ⟨0, 1, .ast⟩, .addNode "X", .addEdge ⟨0, 1, .ast⟩,
    .addEdge ⟨0, 1, .ast⟩].foldl perform ⟨[⟨0, .var, "p"⟩], [], [[]], [[]]⟩

theorem consistent_looped : looped.Reached ∧ looped.Consistent := by
  have loaded : ofStored [⟨0, .var, "p"⟩] [] = .ok ⟨[⟨0, .var, "p"⟩], [], [[]], [[]]⟩ := rfl
  have reached : looped.Reached := (Reached.stored loaded).foldl_perform _
  exact ⟨reached, reached.consistent.1⟩

end FolGraph.Graph
