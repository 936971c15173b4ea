import FolGraph.Graph.Stored
import Mathlib.Data.List.Basic
import Mathlib.Data.List.Induction

/-!
# Built graphs

The graphs a program can hold are read from stored lists or made by appending nodes and arcs.
`Built.sound` says what all of them have in common: node `i` carries the id `i`, every arc runs
between two nodes, and the recorded positions of the arcs at a node are the positions of exactly
those arcs, in order. So what leaves or enters a node can be read off the list of arcs.
-/

namespace FolGraph.Graph

/-- Graphs read from stored lists, or made by appending nodes and arcs. -/
inductive Built : Graph → Prop where
  | empty : Built .empty
  | stored {nodes : List Node} {edges : List Edge} {g : Graph} :
    ofStored nodes edges = .ok g → Built g
  | addNode {g : Graph} (label : String) : Built g → Built (g.addNode label)
  | addEdge {g g' : Graph} {e : Edge} : Built g → g.addEdge e = .ok g' → Built g'

/-- The ids number the nodes, and the adjacency is that of the arcs. -/
structure Sound (g : Graph) : Prop where
  ids : ∀ i n, g.node? i = some n → n.id = i
  ends : ∀ e ∈ g.edges, g.hasEnds e = true
  outgoing : g.outgoing = (List.range g.size).map fun i => g.edges.findIdxs (·.source == i)
  incoming : g.incoming = (List.range g.size).map fun i => g.edges.findIdxs (·.target == i)

theorem lt_size_of_node? {g : Graph} {i : Nat} {n : Node} (found : g.node? i = some n) :
    i < g.size := (List.getElem?_eq_some_iff.mp found).1

/-- The nodes are found under the ids that they carry. -/
theorem Sound.exists_node? {g : Graph} (sound : g.Sound) {i : Nat} (hi : i < g.size) :
    ∃ n, n.id = i ∧ g.node? i = some n := by
  have found : g.node? i = some g.nodes[i] := List.getElem?_eq_getElem hi
  exact ⟨_, sound.ids i _ found, found⟩

theorem Sound.empty : Sound .empty :=
  ⟨by simp [node?, Graph.empty], by simp [Graph.empty], rfl, rfl⟩

/-- No arc is recorded at a node that has just been appended. -/
theorem map_findIdxs_succ {edges : List Edge} {count : Nat} (endOf : Edge → Nat)
    (inside : ∀ e ∈ edges, endOf e < count) :
    (List.range (count + 1)).map (fun i => edges.findIdxs (endOf · == i)) =
      (List.range count).map (fun i => edges.findIdxs (endOf · == i)) ++ [[]] := by
  have none : edges.findIdxs (endOf · == count) = [] := by
    rw [List.findIdxs_eq_nil_iff]
    intro e he
    simpa using Nat.ne_of_lt (inside e he)
  rw [List.range_succ, List.map_append, List.map_singleton, none]

theorem Sound.insertNode {g : Graph} (sound : g.Sound) (kind : Kind) (label : String) :
    (g.insertNode kind label).Sound where
  ids i n h := by
    simp only [node?, nodes_insertNode] at h
    by_cases old : i < g.nodes.length
    · rw [List.getElem?_append_left old] at h
      exact sound.ids i n h
    · rw [List.getElem?_append_right (by omega), List.getElem?_singleton] at h
      split at h
      · obtain rfl := Option.some.inj h
        simp only [size]
        omega
      · cases h
  ends e he := by
    have inside := hasEnds_iff.mp (sound.ends e he)
    rw [hasEnds_iff, size_insertNode]
    omega
  outgoing := by
    rw [size_insertNode, edges_insertNode, map_findIdxs_succ Edge.source
      fun e he => (hasEnds_iff.mp (sound.ends e he)).1, ← sound.outgoing]
    rfl
  incoming := by
    rw [size_insertNode, edges_insertNode, map_findIdxs_succ Edge.target
      fun e he => (hasEnds_iff.mp (sound.ends e he)).2, ← sound.incoming]
    rfl

/-- Recording the position of a new arc at one of its ends keeps the record of that end. -/
theorem modify_findIdxs (edges : List Edge) (e : Edge) (count : Nat) (endOf : Edge → Nat) :
    ((List.range count).map fun i => edges.findIdxs (endOf · == i)).modify (endOf e)
        (· ++ [edges.length]) =
      (List.range count).map fun i => (edges ++ [e]).findIdxs (endOf · == i) := by
  apply List.ext_getElem?
  intro i
  rw [List.getElem?_modify, List.getElem?_map, List.getElem?_map]
  cases h : (List.range count)[i]? with
  | none => simp
  | some j =>
    obtain ⟨_, rfl⟩ : i < count ∧ i = j := by simpa [List.getElem?_eq_some_iff] using h
    by_cases same : endOf e = i
    · simp [same, List.findIdxs_append]
    · simp [same, List.findIdxs_append]

theorem Sound.link {g : Graph} (sound : g.Sound) {e : Edge} (inside : g.hasEnds e = true) :
    (g.link e).Sound where
  ids := sound.ids
  ends e' he' := by
    rw [edges_link, List.mem_append, List.mem_singleton] at he'
    rcases he' with old | rfl
    · exact sound.ends e' old
    · exact inside
  outgoing := by
    rw [size_link, edges_link, ← modify_findIdxs g.edges e g.size Edge.source, ← sound.outgoing]
    rfl
  incoming := by
    rw [size_link, edges_link, ← modify_findIdxs g.edges e g.size Edge.target, ← sound.incoming]
    rfl

theorem Sound.insertStored {g g' : Graph} (sound : g.Sound) {nodes : List Node}
    (h : g.insertStored nodes = .ok g') : g'.Sound := by
  induction nodes generalizing g with
  | nil =>
    obtain rfl : g = g' := by simpa [Graph.insertStored] using h
    exact sound
  | cons n ns ih =>
    simp only [Graph.insertStored] at h
    split at h
    · exact ih (sound.insertNode n.kind n.label) h
    · cases h

theorem Sound.linkStored {g g' : Graph} (sound : g.Sound) {edges : List Edge}
    (h : g.linkStored edges = .ok g') : g'.Sound := by
  induction edges generalizing g with
  | nil =>
    obtain rfl : g = g' := by simpa [Graph.linkStored] using h
    exact sound
  | cons e es ih =>
    simp only [Graph.linkStored] at h
    split at h
    · next added =>
      obtain ⟨inside, rfl⟩ := addEdge_eq_ok_iff.mp added
      exact ih (sound.link inside) h
    · cases h

theorem Built.sound {g : Graph} (built : Built g) : g.Sound := by
  induction built with
  | empty => exact .empty
  | @stored nodes edges g h =>
    unfold ofStored at h
    cases inserted : Graph.empty.insertStored nodes with
    | error e => simp [inserted, bind, Except.bind] at h
    | ok g₀ =>
      have linked : g₀.linkStored edges = .ok g := by
        simpa [inserted, bind, Except.bind] using h
      exact (Sound.empty.insertStored inserted).linkStored linked
  | addNode label _ ih => exact ih.insertNode _ label
  | addEdge _ added ih =>
    obtain ⟨inside, rfl⟩ := addEdge_eq_ok_iff.mp added
    exact ih.link inside

theorem Built.foldl_addNode {g : Graph} (built : g.Built) (labels : List String) :
    (labels.foldl .addNode g).Built := by
  induction labels generalizing g with
  | nil => exact built
  | cons l ls ih => exact ih (built.addNode l)

theorem Built.foldl_link {g : Graph} (built : g.Built) {es : List Edge}
    (inside : ∀ e ∈ es, g.hasEnds e = true) : (es.foldl .link g).Built := by
  induction es generalizing g with
  | nil => exact built
  | cons e es ih =>
    have added := addEdge_eq_ok_iff.mpr ⟨inside e List.mem_cons_self, rfl⟩
    exact ih (built.addEdge added) fun e' he' => inside e' (List.mem_cons_of_mem e he')

theorem filterMap_findIdxs {α : Type} (p : α → Bool) (xs : List α) :
    (xs.findIdxs p).filterMap (xs[·]?) = xs.filter p := by
  induction xs using List.reverseRecOn with
  | nil => rfl
  | append_singleton xs x ih =>
    have old : (xs.findIdxs p).filterMap ((xs ++ [x])[·]?) = xs.filter p := by
      rw [← ih]
      apply List.filterMap_congr
      intro i hi
      exact List.getElem?_append_left (by simpa using List.lt_add_of_mem_findIdxs i hi)
    rw [List.findIdxs_append, List.filterMap_append, old, List.filter_append]
    by_cases hx : p x = true <;> simp [hx]

/-- The record of an end can be read for every id: no arc is recorded where there is no node. -/
theorem getD_map_findIdxs {edges : List Edge} {count : Nat} (endOf : Edge → Nat)
    (inside : ∀ e ∈ edges, endOf e < count) (i : Nat) :
    (((List.range count).map fun i => edges.findIdxs (endOf · == i))[i]?).getD [] =
      edges.findIdxs (endOf · == i) := by
  rw [List.getElem?_map]
  by_cases h : i < count
  · rw [List.getElem?_range h, Option.map_some, Option.getD_some]
  · have none : edges.findIdxs (endOf · == i) = [] := by
      rw [List.findIdxs_eq_nil_iff]
      intro e he
      have bound := inside e he
      have apart : endOf e ≠ i := by omega
      simpa using apart
    rw [List.getElem?_eq_none (by simpa using h), Option.map_none, Option.getD_none, none]

theorem Sound.outgoing_getD {g : Graph} (sound : g.Sound) (i : Nat) :
    g.outgoing[i]?.getD [] = g.edges.findIdxs (·.source == i) := by
  rw [sound.outgoing]
  exact getD_map_findIdxs Edge.source (fun e he => (hasEnds_iff.mp (sound.ends e he)).1) i

theorem Sound.incoming_getD {g : Graph} (sound : g.Sound) (i : Nat) :
    g.incoming[i]?.getD [] = g.edges.findIdxs (·.target == i) := by
  rw [sound.incoming]
  exact getD_map_findIdxs Edge.target (fun e he => (hasEnds_iff.mp (sound.ends e he)).2) i

theorem Sound.outEdges_eq {g : Graph} (sound : g.Sound) (i : Nat) :
    g.outEdges i = g.edges.filter (·.source == i) := by
  rw [outEdges, sound.outgoing_getD, filterMap_findIdxs]

theorem Sound.outDegree_eq {g : Graph} (sound : g.Sound) (i : Nat) :
    g.outDegree i = g.edges.countP (·.source == i) := by
  rw [outDegree, sound.outgoing_getD, List.length_findIdxs]

theorem Sound.inDegree_eq {g : Graph} (sound : g.Sound) (i : Nat) :
    g.inDegree i = g.edges.countP (·.target == i) := by
  rw [inDegree, sound.incoming_getD, List.length_findIdxs]

theorem Sound.successors_eq {g : Graph} (sound : g.Sound) (i : Nat) (role : Role) :
    g.successors i role =
      (g.edges.filter fun e => e.source == i && e.role == role).map (·.target) := by
  rw [successors, sound.outEdges_eq, List.filter_filter]
  congr 1
  apply List.filter_congr
  intro e _
  exact Bool.and_comm _ _

/-- The arguments of a node are the targets of the `ast` arcs that leave it. -/
theorem Sound.children_eq {g : Graph} (sound : g.Sound) (i : Nat) :
    g.children i =
      (g.edges.filter fun e => e.source == i && e.role == .ast).map (·.target) :=
  sound.successors_eq i .ast

theorem Sound.mem_children {g : Graph} (sound : g.Sound) {a b : Nat} :
    b ∈ g.children a ↔ ⟨a, b, .ast⟩ ∈ g.edges := by
  simp only [sound.children_eq, List.mem_map, List.mem_filter, Bool.and_eq_true, beq_iff_eq]
  constructor
  · rintro ⟨⟨_, _, _⟩, ⟨he, rfl, rfl⟩, rfl⟩
    exact he
  · intro he
    exact ⟨_, ⟨he, rfl, rfl⟩, rfl⟩

theorem Sound.lt_size_of_mem_children {g : Graph} (sound : g.Sound) {a b : Nat}
    (h : b ∈ g.children a) : b < g.size :=
  (hasEnds_iff.mp (sound.ends _ (sound.mem_children.mp h))).2

end FolGraph.Graph
