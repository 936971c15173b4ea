import FolGraph.Proofs.Encoding.Insertion
import FolGraph.Proofs.Graph.Machine

/-!
# No faults

Decoding, encoding and loading take positions, lengths and the ends of arcs for granted in many
places. `faultless` says that they may: whatever the graph, the formula or the stored lists, the
checked computations agree with those that do not check, and decoding ends.
-/

namespace FolGraph

open FolGraph.Graph Checked

namespace Checked

/-- Appends stored arcs. Each is tested before it is added, and added on the assumption that the
test was enough. -/
def linkStored (g : Graph) : List Edge → Checked StoredError Graph
  | [] => .ok g
  | e :: es =>
    if g.size ≤ e.source ∨ g.size ≤ e.target then
      refuse (.danglingEdge e.source e.target g.size)
    else addEdge g e >>= fun g' => linkStored g' es

/-- The graph with the given nodes and arcs. -/
def ofStored (nodes : List Node) (edges : List Edge) : Checked StoredError Graph :=
  safe (Graph.empty.insertStored nodes) >>= fun g => linkStored g edges

theorem linkStored_eq (g : Graph) (edges : List Edge) :
    linkStored g edges = safe (g.linkStored edges) := by
  induction edges generalizing g with
  | nil => rfl
  | cons e es ih =>
    rw [linkStored, Graph.linkStored]
    by_cases outside : g.size ≤ e.source ∨ g.size ≤ e.target
    · rw [if_pos outside, addEdge_of_unknown_end outside]
      rfl
    · have inside : g.hasEnds e = true := by
        rw [hasEnds_iff]
        omega
      rw [if_neg outside, addEdge_of_hasEnds inside, addEdge_eq_ok_iff.mpr ⟨inside, rfl⟩]
      exact ih (g.link e)

theorem ofStored_eq (nodes : List Node) (edges : List Edge) :
    ofStored nodes edges = safe (Graph.ofStored nodes edges) := by
  rw [ofStored, Graph.ofStored, safe_bind]
  congr 1
  funext g
  exact linkStored_eq g edges

end Checked

/-- Arcs that form a cycle below the root, a loop and two parallel arcs. -/
def tangled : Graph :=
  [⟨0, 1, .ast⟩, ⟨1, 2, .ast⟩, ⟨2, 1, .ast⟩, ⟨3, 3, .ast⟩, ⟨3, 2, .ncs⟩, ⟨3, 2, .ncs⟩].foldl .link
    (["p", "f", "g", "X"].foldl .addNode .empty)

theorem built_tangled : tangled.Built :=
  (Built.empty.foldl_addNode ["p", "f", "g", "X"]).foldl_link (by decide)

/-- Decoding a graph, strictly or not, ends after two steps for each node at most, with no position
out of range and no length below zero. It expands every node at most once, and no bound on its depth
cuts it short. Encoding a formula adds no arc before its ends, and loading stored lists none that
does not run between two nodes. -/
theorem faultless :
    (∀ g : Graph, g.Built → ∀ strict,
      (∀ steps, 2 * g.size < steps →
        decodeWithin g strict steps = some (safe (g.decode strict))) ∧
      ∀ root, g.startingNode = .ok root →
        (∀ m, Leads g strict (.start g root.id) m →
          m.log.Nodup ∧ ∀ fault, step g strict m ≠ .error (.fault fault)) ∧
        ∀ fuel, g.size ≤ fuel →
          g.read strict fuel root.id [] = g.read strict g.size root.id []) ∧
    (∀ f : Formula, (f.insert .empty .root : Checked Empty Graph) = .ok f.encode) ∧
    ∀ nodes edges, Checked.ofStored nodes edges = safe (Graph.ofStored nodes edges) := by
  refine ⟨fun g built strict => ⟨fun steps enough => ?_, fun root start => ⟨?_, ?_⟩⟩,
    Formula.insert_root, ofStored_eq⟩
  · exact decodeWithin_eq built.sound strict enough
  · intro m leads
    have inside := lt_size_of_node? ((startingNode_eq_ok_iff built.sound).mp start).1
    have valid := valid_of_leads built.sound (.start inside) leads
    refine ⟨valid.log.nodup, fun fault h => ?_⟩
    rw [step_eq built.sound strict valid] at h
    exact safe_ne_fault h
  · intro fuel more
    have inside := lt_size_of_node? ((startingNode_eq_ok_iff built.sound).mp start).1
    exact read_eq_of_enough built.sound strict (.nil g) inside (Nat.le_add_right _ _) more

theorem faultless_tangled : tangled.Built ∧
    decodeWithin tangled true 9 = some (refuse (.revisitedNode ⟨1, .application, "f"⟩)) ∧
    (∃ m, Leads tangled true (.start tangled 0) m ∧ m.log = [2, 1, 0] ∧ m.log.Nodup ∧
      ∀ fault, step tangled true m ≠ .error (.fault fault)) ∧
    tangled.read true 100 0 [] = tangled.read true 4 0 [] ∧
    ((Formula.node "!" [.leaf "X", .leaf "X"]).insert .empty .root : Checked Empty Graph) =
      .ok (Formula.node "!" [.leaf "X", .leaf "X"]).encode ∧
    Checked.ofStored [⟨0, .var, "X"⟩] [⟨0, 1, .ast⟩] = refuse (.danglingEdge 0 1 1) := by
  obtain ⟨decodes, encodes, loads⟩ := faultless
  have refused : tangled.decode true = .error (.revisitedNode ⟨1, .application, "f"⟩) := rfl
  obtain ⟨ends, along⟩ := decodes tangled built_tangled true
  obtain ⟨steps, fuels⟩ := along ⟨0, .application, "p"⟩ rfl
  refine ⟨built_tangled, ?_, ?_, fuels 100 (by decide), encodes _, loads _ _⟩
  · rw [ends 9 (by decide), refused]
    rfl
  · have leads : Leads tangled true (.start tangled 0)
        ⟨[true, true, true, false], [2, 1, 0], .read 1, [⟨"g", [], []⟩, ⟨"f", [], []⟩,
          ⟨"p", [], []⟩]⟩ := .tail (.tail (.tail .refl rfl) rfl) rfl
    obtain ⟨nodup, safely⟩ := steps _ leads
    exact ⟨_, leads, rfl, nodup, safely⟩

end FolGraph
