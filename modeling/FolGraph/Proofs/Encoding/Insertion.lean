import FolGraph.Proofs.Encoding.Encoded
import FolGraph.Proofs.Outcome
import FolGraph.Proofs.Graph.Consistency

/-!
# Encoding in one pass

The graph of a formula grows in one pass over the formula: a node is appended when the pass reaches
it, and the arcs that enter it follow at once. All of them come from nodes that were appended before
(`Place.Within`), so none is refused, and `insert_root` says that the pass makes the graph of the
formula.
-/

namespace FolGraph

open FolGraph.Graph Checked

namespace Layout

/-- Where the next argument of a node stands. -/
def place (layout : Layout) (parent : Nat) (scope : Scope) (previous : Option Nat) (last : Bool) :
    Place :=
  match layout with
  | .chained => ⟨some parent, previous, scope⟩
  | .unchained => ⟨some parent, none, scope⟩
  | .binding => ⟨some parent, none, if last then scope else []⟩

/-- The declarations in force after an argument. -/
def scopeAfter (layout : Layout) (scope : Scope) (name : String) (id : Nat) : Scope :=
  match layout with
  | .binding => scope.declare name id
  | _ => scope

/-- The argument that the next one is chained to. -/
def previousAfter (layout : Layout) (id : Nat) : Option Nat :=
  match layout with
  | .chained => some id
  | _ => none

end Layout

namespace Formula

mutual

/-- Appends the nodes and the arcs of a formula in one pass. -/
def insert {ε : Type} (g : Graph) (place : Place) : Formula → Checked ε Graph
  | .node label args => do
    let g' ← (place.arrivals g.size label).foldlM addEdge (g.addNode label)
    insertAll g' (.ofLabel label) g.size place.scope none args

/-- Appends the remaining arguments of a node; the first of them follows the argument `previous`,
if arguments are chained. -/
def insertAll {ε : Type} (g : Graph) (layout : Layout) (parent : Nat) (scope : Scope)
    (previous : Option Nat) : List Formula → Checked ε Graph
  | [] => .ok g
  | f :: fs => do
    let g' ← f.insert g (layout.place parent scope previous fs.isEmpty)
    insertAll g' layout parent (layout.scopeAfter scope f.label g.size)
      (layout.previousAfter g.size) fs

end

theorem arcsAll_cons_eq (layout : Layout) (parent : Nat) (scope : Scope) (previous : Option Nat)
    (next : Nat) (f : Formula) (fs : List Formula) :
    arcsAll layout parent scope previous next (f :: fs) =
      f.arcs (layout.place parent scope previous fs.isEmpty) next ++
        arcsAll layout parent (layout.scopeAfter scope f.label next) (layout.previousAfter next)
          (next + f.size) fs := by
  cases layout <;> rfl

end Formula

/-! ## Nodes that were appended before -/

/-- What a place refers to are the first nodes of a graph. -/
structure Place.Within (p : Place) (count : Nat) : Prop where
  parent : ∀ s, p.parent = some s → s < count
  previous : ∀ s, p.previous = some s → s < count
  scope : ∀ d ∈ p.scope, d.2 < count

theorem Place.Within.root : Place.root.Within 0 := ⟨by simp [Place.root], by simp [Place.root],
  by simp [Place.root]⟩

theorem Place.Within.lt_of_mem_arrivals {p : Place} {id : Nat} (within : p.Within id)
    {label : String} {e : Edge} (h : e ∈ p.arrivals id label) : e.source < id ∧ e.target = id := by
  obtain ⟨target, ⟨_, from_⟩ | ⟨_, from_⟩ | ⟨_, from_⟩⟩ := Place.mem_arrivals.mp h
  · exact ⟨within.parent _ from_, target⟩
  · exact ⟨within.previous _ from_, target⟩
  · obtain ⟨d, hd, binder⟩ := List.mem_map.mp from_
    exact ⟨binder ▸ within.scope d (List.mem_of_mem_filter hd), target⟩

theorem Layout.place_within (layout : Layout) {parent count : Nat} {scope : Scope}
    {previous : Option Nat} (hp : parent < count) (hs : ∀ d ∈ scope, d.2 < count)
    (hq : ∀ s, previous = some s → s < count) (last : Bool) :
    (layout.place parent scope previous last).Within count := by
  have parents : ∀ s, some parent = some s → s < count := by simpa using hp
  have nothing : ∀ s, (none : Option Nat) = some s → s < count := by simp
  cases layout with
  | chained => exact ⟨parents, hq, hs⟩
  | unchained => exact ⟨parents, nothing, hs⟩
  | binding =>
    cases last with
    | false => exact ⟨parents, nothing, by simp [place]⟩
    | true => exact ⟨parents, nothing, hs⟩

theorem Layout.scopeAfter_within (layout : Layout) {scope : Scope} {id count : Nat}
    (hs : ∀ d ∈ scope, d.2 < count) (hid : id < count) (name : String) :
    ∀ d ∈ layout.scopeAfter scope name id, d.2 < count := by
  cases layout with
  | chained => exact hs
  | unchained => exact hs
  | binding =>
    intro d hd
    rcases List.mem_append.mp hd with old | new
    · exact hs d (List.mem_of_mem_filter old)
    · obtain rfl := List.mem_singleton.mp new
      exact hid

theorem Layout.previousAfter_within (layout : Layout) {id count : Nat} (hid : id < count) :
    ∀ s, layout.previousAfter id = some s → s < count := by
  cases layout <;> simp [previousAfter, hid]

/-! ## What a pass adds -/

namespace Graph

/-- A graph with further nodes, which have the given labels, and further arcs. -/
structure Grows (g g' : Graph) (labels : List String) (arcs : List Edge) : Prop where
  sound : g'.Sound
  nodes : g'.nodes = g.nodes ++ (labels.zipIdx g.size).map fun li => ⟨li.2, .ofLabel li.1, li.1⟩
  edges : g'.edges = g.edges ++ arcs

theorem Grows.refl {g : Graph} (sound : g.Sound) : g.Grows g [] [] := ⟨sound, by simp, by simp⟩

theorem Grows.size {g g' : Graph} {labels : List String} {arcs : List Edge}
    (grows : g.Grows g' labels arcs) : g'.size = g.size + labels.length := by
  rw [Graph.size, grows.nodes]
  simp [Graph.size]

theorem Grows.trans {g g' g'' : Graph} {labels labels' : List String} {arcs arcs' : List Edge}
    (first : g.Grows g' labels arcs) (second : g'.Grows g'' labels' arcs') :
    g.Grows g'' (labels ++ labels') (arcs ++ arcs') where
  sound := second.sound
  nodes := by
    rw [second.nodes, first.nodes, first.size, List.zipIdx_append, List.map_append,
      List.append_assoc]
  edges := by rw [second.edges, first.edges, List.append_assoc]

theorem Sound.foldl_link {g : Graph} (sound : g.Sound) {es : List Edge}
    (inside : ∀ e ∈ es, g.hasEnds e = true) : (es.foldl .link g).Sound := by
  induction es generalizing g with
  | nil => exact sound
  | cons e es ih =>
    obtain ⟨here, rest⟩ := List.forall_mem_cons.mp inside
    exact ih (sound.link here) rest

theorem foldlM_addEdge {ε : Type} {g : Graph} {es : List Edge}
    (inside : ∀ e ∈ es, g.hasEnds e = true) :
    (es.foldlM Checked.addEdge g : Checked ε Graph) = .ok (es.foldl .link g) := by
  induction es generalizing g with
  | nil => rfl
  | cons e es ih =>
    obtain ⟨here, rest⟩ := List.forall_mem_cons.mp inside
    rw [List.foldlM_cons, addEdge_of_hasEnds here]
    exact ih rest

/-- A node and the arcs that arrive at it are added without faults. -/
theorem exists_grows_node {ε : Type} {g : Graph} (sound : g.Sound) {place : Place}
    (within : place.Within g.size) (label : String) :
    ∃ g', ((place.arrivals g.size label).foldlM Checked.addEdge (g.addNode label) :
        Checked ε Graph) = .ok g' ∧ g.Grows g' [label] (place.arrivals g.size label) := by
  have inside : ∀ e ∈ place.arrivals g.size label, (g.addNode label).hasEnds e = true := by
    intro e he
    obtain ⟨source, target⟩ := within.lt_of_mem_arrivals he
    rw [hasEnds_iff, addNode, size_insertNode]
    omega
  refine ⟨_, foldlM_addEdge inside, ?_, ?_, ?_⟩
  · exact (sound.insertNode _ label).foldl_link inside
  · rw [nodes_foldl_link]
    rfl
  · rw [edges_foldl_link]
    rfl

end Graph

namespace Formula

mutual

/-- A formula is added without faults where its place is known. -/
theorem exists_insert {ε : Type} : (f : Formula) → {g : Graph} → g.Sound → {place : Place} →
    place.Within g.size →
    ∃ g', (f.insert g place : Checked ε Graph) = .ok g' ∧
      g.Grows g' f.labels (f.arcs place g.size)
  | .node label args, g, sound, place, within => by
    obtain ⟨g', added, grows⟩ := exists_grows_node (ε := ε) sound within label
    -- the node comes before all of its arguments, so they may refer to it
    have size : g'.size = g.size + 1 := grows.size
    have parent : g.size < g'.size := by omega
    have scope : ∀ d ∈ place.scope, d.2 < g'.size :=
      fun d hd => Nat.lt_trans (within.scope d hd) parent
    obtain ⟨g'', rest, grows'⟩ := exists_insertAll (ε := ε) args (.ofLabel label) none grows.sound
      parent scope (by simp)
    refine ⟨g'', ?_, ?_⟩
    · rw [insert, added]
      exact rest
    · rw [size] at grows'
      exact grows.trans grows'

theorem exists_insertAll {ε : Type} : (fs : List Formula) → (layout : Layout) →
    (previous : Option Nat) → {g : Graph} → g.Sound → {parent : Nat} → parent < g.size →
    {scope : Scope} → (∀ d ∈ scope, d.2 < g.size) → (∀ s, previous = some s → s < g.size) →
    ∃ g', (insertAll g layout parent scope previous fs : Checked ε Graph) = .ok g' ∧
      g.Grows g' (labelsAll fs) (arcsAll layout parent scope previous g.size fs)
  | [], _, _, g, sound, _, _, _, _, _ => ⟨g, rfl, .refl sound⟩
  | f :: fs, layout, previous, g, sound, parent, hp, scope, hs, hq => by
    obtain ⟨g', first, grows⟩ := exists_insert (ε := ε) f sound
      (layout.place_within hp hs hq fs.isEmpty)
    have size : g'.size = g.size + f.size := by rw [grows.size, length_labels]
    have here : g.size < g'.size := by
      have := f.size_pos
      omega
    have scope' := layout.scopeAfter_within (fun d hd => Nat.lt_trans (hs d hd) here) here f.label
    obtain ⟨g'', rest, grows'⟩ := exists_insertAll (ε := ε) fs layout
      (layout.previousAfter g.size) grows.sound (Nat.lt_trans hp here) scope'
      (layout.previousAfter_within here)
    refine ⟨g'', ?_, ?_⟩
    · rw [insertAll, first]
      exact rest
    · rw [size] at grows'
      rw [labelsAll, arcsAll_cons_eq]
      exact grows.trans grows'

end

/-- One pass over a formula makes its graph, and no arc is added before its ends. -/
theorem insert_root {ε : Type} (f : Formula) :
    (f.insert .empty .root : Checked ε Graph) = .ok f.encode := by
  obtain ⟨g, inserted, grows⟩ := exists_insert (ε := ε) f Sound.empty Place.Within.root
  have nodes : g.nodes = f.encode.nodes := by
    rw [grows.nodes, nodes_encode]
    rfl
  have edges : g.edges = f.encode.edges := by
    rw [grows.edges, edges_encode, ← arcs_eq_flatMap]
    rfl
  rw [inserted, (sound_encode f).eq_of_nodes_of_edges grows.sound nodes edges]

end Formula

end FolGraph
