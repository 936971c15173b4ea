import FolGraph.Proofs.Graph.Tally
import Mathlib.Data.List.Flatten

/-!
# Well-formed graphs

The graphs of formulas are those whose `ast` arcs form a tree, rooted at the only node that no arc
enters, in which the arguments of every node are arranged. `decode_ok_iff_wellFormed` says that
these are exactly the graphs that the decoder accepts.
-/

namespace FolGraph.Graph

/-- The number of `ast` arcs that enter a node. -/
def parentCount (g : Graph) (v : Nat) : Nat := (g.edgesOfRole .ast).countP (·.target == v)

/-- A tree of `ast` arcs with its root and with arranged arguments. -/
structure RootedAt (g : Graph) (r : Nat) : Prop where
  inside : r < g.size
  source : ∀ v < g.size, (g.Unentered v ↔ v = r)
  parent : ∀ v < g.size, v ≠ r → g.parentCount v = 1
  reached : ∀ v < g.size, v ≠ r → g.Reaches r v
  /-- The arcs between several arguments, if any, are a path through all of them. -/
  arranged : ∀ n ∈ g.nodes, 2 ≤ (g.children n.id).length →
    g.argumentArcs n.label (g.children n.id) = [] ∨
      ∃ path, path.Perm (g.children n.id) ∧
        (g.argumentArcs n.label (g.children n.id)).Perm (chainArcs path)

def WellFormed (g : Graph) : Prop := ∃ r, g.RootedAt r

/-! ## Counting arcs -/

theorem Sound.children_eq_edgesOfRole {g : Graph} (sound : g.Sound) (v : Nat) :
    g.children v = ((g.edgesOfRole .ast).filter (·.source == v)).map (·.target) := by
  rw [sound.children_eq, edgesOfRole, List.filter_filter]

/-- The arguments of some nodes are the targets of the `ast` arcs that leave them. -/
theorem Sound.flatMap_children_perm {g : Graph} (sound : g.Sound) {ids : List Nat}
    (nodup : ids.Nodup) :
    (ids.flatMap g.children).Perm
      (((g.edgesOfRole .ast).filter fun e => ids.contains e.source).map (·.target)) := by
  have grouped := (flatMap_filter_perm nodup (g.edgesOfRole .ast)).map (·.target)
  rw [List.map_flatMap] at grouped
  rw [show g.children = _ from funext sound.children_eq_edgesOfRole]
  exact grouped

/-- Node by node, the arguments are the targets of all `ast` arcs. -/
theorem Sound.flatMap_children {g : Graph} (sound : g.Sound) :
    ((List.range g.size).flatMap g.children).Perm ((g.edgesOfRole .ast).map (·.target)) := by
  have grouped := sound.flatMap_children_perm (List.nodup_range (n := g.size))
  have all : (g.edgesOfRole .ast).filter (fun e => (List.range g.size).contains e.source) =
      g.edgesOfRole .ast := by
    rw [List.filter_eq_self]
    intro e he
    have inside := hasEnds_iff.mp (sound.ends e (List.mem_filter.mp he).1)
    simpa using inside.1
  rwa [all] at grouped

theorem Sound.count_flatMap_children {g : Graph} (sound : g.Sound) (v : Nat) :
    ((List.range g.size).flatMap g.children).count v = g.parentCount v := by
  rw [sound.flatMap_children.count_eq, List.count, List.countP_map]
  rfl

theorem Sound.count_flatMap_children_le {g : Graph} (sound : g.Sound) {visited : List Nat}
    (nodup : visited.Nodup) (inside : ∀ u ∈ visited, u < g.size) (v : Nat) :
    (visited.flatMap g.children).count v ≤ g.parentCount v := by
  have within : visited ⊆ List.range g.size := fun u hu => List.mem_range.mpr (inside u hu)
  obtain ⟨us, same, sub⟩ := List.subperm_of_subset nodup within
  rw [← sound.count_flatMap_children, ← (same.flatMap_right g.children).count_eq]
  exact (sub.flatMap g.children).count_le v

theorem parentCount_eq_zero {g : Graph} {v : Nat} (free : g.Unentered v) :
    g.parentCount v = 0 := by
  rw [parentCount, List.countP_eq_zero]
  intro e he
  simpa using free e (List.mem_filter.mp he).1

/-- If one `ast` arc at most enters each node, no node has an argument twice. -/
theorem Sound.nodup_children {g : Graph} (sound : g.Sound)
    (single : ∀ v, g.parentCount v ≤ 1) {i : Nat} (hi : i < g.size) : (g.children i).Nodup := by
  rw [List.nodup_iff_count_le_one]
  intro v
  have one := sound.count_flatMap_children_le (List.nodup_singleton i) (by simpa using hi) v
  rw [List.flatMap_singleton] at one
  exact Nat.le_trans one (single v)

theorem parentCount_eq_zero_of_size_le {g : Graph} (sound : g.Sound) {v : Nat}
    (outside : g.size ≤ v) : g.parentCount v = 0 := by
  refine parentCount_eq_zero fun e he target => ?_
  have inside := hasEnds_iff.mp (sound.ends e he)
  omega

theorem RootedAt.parentCount_le_one {g : Graph} (sound : g.Sound) {r : Nat} (rooted : g.RootedAt r)
    (v : Nat) : g.parentCount v ≤ 1 := by
  by_cases outside : g.size ≤ v
  · rw [parentCount_eq_zero_of_size_le sound outside]
    exact Nat.zero_le 1
  · by_cases root : v = r
    · rw [parentCount_eq_zero ((rooted.source v (by omega)).mpr root)]
      exact Nat.zero_le 1
    · exact Nat.le_of_eq (rooted.parent v (by omega) root)

/-! ## Tallies of trees -/

theorem Tally.count_eq {g : Graph} {root : Nat} {visited pending : List Nat}
    (tally : g.Tally root visited pending) (v : Nat) :
    visited.count v + pending.count v =
      (if root = v then 1 else 0) + (visited.flatMap g.children).count v := by
  rw [← List.count_append, tally.balance.count_eq, List.count_cons, Nat.add_comm]
  simp

/-- When nothing is pending, every node that is reached from the root has been visited. -/
theorem Tally.mem_of_reaches {g : Graph} (sound : g.Sound) {root : Nat} {visited : List Nat}
    (tally : g.Tally root visited []) {v : Nat} (reached : g.Reaches root v) : v ∈ visited := by
  have closed : ∀ {u}, u ∈ root :: visited.flatMap g.children → u ∈ visited := by
    intro u hu
    simpa using tally.balance.mem_iff.mpr hu
  induction reached with
  | refl => exact closed List.mem_cons_self
  | tail _ arc ih =>
    refine closed (List.mem_cons_of_mem _ (List.mem_flatMap.mpr ⟨_, ih, ?_⟩))
    exact sound.mem_children.mpr arc

/-- In a tree, no node is visited and pending: two arcs would enter it, or one the root. -/
theorem RootedAt.not_mem_of_pending {g : Graph} (sound : g.Sound) {r : Nat}
    (rooted : g.RootedAt r) {v : Nat} {visited pending : List Nat}
    (tally : g.Tally r visited (v :: pending)) : v ∉ visited := by
  intro seen
  have inside : ∀ u ∈ visited, u < g.size :=
    fun u hu => tally.inside u (List.mem_append_left _ hu)
  have twice := tally.count_eq v
  have once := List.count_pos_iff.mpr seen
  have arcs := sound.count_flatMap_children_le tally.nodup inside v
  rw [List.count_cons_self] at twice
  by_cases root : r = v
  · have none := parentCount_eq_zero ((rooted.source v (inside v seen)).mpr root.symm)
    rw [if_pos root] at twice
    omega
  · have one := rooted.parentCount_le_one sound v
    rw [if_neg root] at twice
    omega

/-- The decoder has no reason to refuse a tree with arranged arguments. -/
theorem RootedAt.not_refusal {g : Graph} (sound : g.Sound) {r : Nat} (rooted : g.RootedAt r)
    {e : DecodeError} : ¬ g.Refusal r e := by
  intro refusal
  cases refusal with
  | @unordered n found reached none =>
    by_cases few : (g.children n.id).length < 2
    · rw [orderSiblings?_of_length_lt_two few] at none
      cases none
    · have nodup := sound.nodup_children (rooted.parentCount_le_one sound) (lt_size_of_node? found)
      have arranged := rooted.arranged n (List.mem_of_getElem? found) (by omega)
      obtain ⟨ordered, order⟩ := (exists_orderSiblings?_iff sound nodup (by omega)).mpr arranged
      rw [none] at order
      cases order
  | revisited found tally seen => exact rooted.not_mem_of_pending sound tally seen
  | @unreachable visited tally some =>
    refine some ((length_unvisited_eq_zero sound).mpr fun v hv => ?_)
    by_cases root : v = r
    · rw [root]
      exact tally.mem_of_reaches sound Relation.ReflTransGen.refl
    · exact tally.mem_of_reaches sound (rooted.reached v hv root)

/-- What the decoder accepts is a tree with arranged arguments. -/
theorem rootedAt_of_decode {g : Graph} (sound : g.Sound) {f : Formula}
    (h : g.decode false = .ok f) {n : Node} (start : g.startingNode = .ok n) :
    g.RootedAt n.id := by
  obtain ⟨found, source⟩ := (startingNode_eq_ok_iff sound).mp start
  obtain ⟨visited, tally, all⟩ := exists_tally_of_decode sound h start
  have seen : ∀ v < g.size, v ∈ visited := fun v hv => all.mem_iff.mpr (List.mem_range.mpr hv)
  have balance : ∀ v, visited.count v = (if n.id = v then 1 else 0) + g.parentCount v := by
    intro v
    rw [← sound.count_flatMap_children, ← (all.flatMap_right g.children).count_eq]
    simpa using tally.count_eq v
  have single : ∀ v, g.parentCount v ≤ 1 := by
    intro v
    have once := List.nodup_iff_count_le_one.mp tally.nodup v
    have entered := balance v
    omega
  refine ⟨lt_size_of_node? found, source, ?_, ?_, ?_⟩
  · intro v hv other
    have entered := balance v
    rw [List.count_eq_one_of_mem tally.nodup (seen v hv), if_neg other.symm] at entered
    omega
  · exact fun v hv _ => tally.reached v (by simpa using seen v hv)
  · intro m hm several
    have found := sound.node?_of_mem hm
    have inside := lt_size_of_node? found
    obtain ⟨kids, order⟩ := tally.ordered m found (seen m.id inside)
    rw [← exists_orderSiblings?_iff sound (sound.nodup_children single inside) several]
    exact ⟨kids, arguments_eq_ok.mp order⟩

/-- A tree with arranged arguments is accepted. -/
theorem RootedAt.exists_decode {g : Graph} (sound : g.Sound) {r : Nat} (rooted : g.RootedAt r) :
    ∃ f, g.decode false = .ok f := by
  obtain ⟨n, rfl, found⟩ := sound.exists_node? rooted.inside
  have start := (startingNode_eq_ok_iff sound).mpr ⟨found, rooted.source⟩
  have outcome := decode_outcome sound start
  cases result : g.decode false with
  | ok f => exact ⟨f, rfl⟩
  | error e =>
    rw [result] at outcome
    exact absurd outcome (rooted.not_refusal sound)

/-- Two arguments that were inserted in one order and are chained in the other. -/
def swapped : Graph :=
  [⟨0, 1, .ast⟩, ⟨0, 2, .ast⟩, ⟨2, 1, .ncs⟩].foldl .link (["f", "b", "a"].foldl .addNode .empty)

theorem built_swapped : swapped.Built :=
  (Built.empty.foldl_addNode ["f", "b", "a"]).foldl_link (by decide)

/-- The decoder accepts exactly the well-formed graphs. -/
theorem decode_ok_iff_wellFormed {g : Graph} (built : g.Built) :
    (∃ f, g.decode false = .ok f) ↔ g.WellFormed := by
  constructor
  · rintro ⟨f, h⟩
    obtain ⟨root, _, start, _⟩ := (decode_eq_ok_iff built.sound).mp h
    exact ⟨root.id, rootedAt_of_decode built.sound h start⟩
  · rintro ⟨r, rooted⟩
    exact rooted.exists_decode built.sound

theorem wellFormed_swapped : swapped.Built ∧ swapped.WellFormed :=
  ⟨built_swapped, (decode_ok_iff_wellFormed built_swapped).mp
    ⟨.node "f" [.leaf "a", .leaf "b"], rfl⟩⟩

end FolGraph.Graph
