import FolGraph.Proofs.Graph.Fuel
import Mathlib.Logic.Relation

/-!
# The course of a reading

`Tally` is what holds at every moment of a reading: the nodes visited and the nodes still to be
read are, with repetitions, the root and the arguments of the nodes visited. A step keeps it
(`Tally.visit`), so a reading ends with it or with an error that it explains (`read_outcome`).
`decode_outcome` draws the consequence for the decoder.
-/

namespace FolGraph.Graph

/-- A node is reached from another one along `ast` arcs. -/
def Reaches (g : Graph) : Nat → Nat → Prop :=
  Relation.ReflTransGen fun a b => ⟨a, b, .ast⟩ ∈ g.edges

/-- A moment of the reading from a root: some nodes have been visited and some are still to be
read, those first in the list first. -/
structure Tally (g : Graph) (root : Nat) (visited pending : List Nat) : Prop where
  nodup : visited.Nodup
  inside : ∀ v ∈ visited ++ pending, v < g.size
  reached : ∀ v ∈ visited ++ pending, g.Reaches root v
  /-- Every arc to an argument of a visited node leads to a visited or a pending node. -/
  balance : (visited ++ pending).Perm (root :: visited.flatMap g.children)
  ordered : ∀ n, g.node? n.id = some n → n.id ∈ visited → ∃ kids, g.arguments n = .ok kids

/-- Why the decoder refuses a graph with a given starting node. -/
inductive Refusal (g : Graph) (root : Nat) : DecodeError → Prop where
  | unordered {n : Node} (found : g.node? n.id = some n) (reached : g.Reaches root n.id)
      (none : g.orderSiblings? n.label (g.children n.id) = none) :
      Refusal g root (.invalidChildArrangement n)
  | revisited {n : Node} {visited pending : List Nat} (found : g.node? n.id = some n)
      (tally : g.Tally root visited (n.id :: pending)) (seen : n.id ∈ visited) :
      Refusal g root (.revisitedNode n)
  | unreachable {visited : List Nat} (tally : g.Tally root visited [])
      (some : (g.nodes.filter (!visited.contains ·.id)).length ≠ 0) :
      Refusal g root (.unreachableNodes (g.nodes.filter (!visited.contains ·.id)).length)

theorem Tally.start {g : Graph} {root : Nat} (inside : root < g.size) :
    g.Tally root [] [root] where
  nodup := List.nodup_nil
  inside := by simpa using inside
  reached v hv := by
    obtain rfl := List.mem_singleton.mp hv
    exact Relation.ReflTransGen.refl
  balance := List.Perm.refl _
  ordered := by simp

theorem Tally.visits {g : Graph} {root : Nat} {visited pending : List Nat}
    (tally : g.Tally root visited pending) : g.Visits visited :=
  ⟨tally.nodup, fun v hv => tally.inside v (List.mem_append_left _ hv)⟩

/-- If as many nodes have been visited as there are, then every node has been. -/
theorem Tally.mem_of_size_le {g : Graph} {root : Nat} {visited pending : List Nat}
    (tally : g.Tally root visited pending) (full : g.size ≤ visited.length) {v : Nat}
    (hv : v < g.size) : v ∈ visited :=
  tally.visits.mem_of_size_le full hv

/-- Visiting the next node puts its arguments in its place. -/
theorem Tally.visit {g : Graph} (sound : g.Sound) {root : Nat} {visited pending kids : List Nat}
    {n : Node} (tally : g.Tally root visited (n.id :: pending)) (found : g.node? n.id = some n)
    (fresh : n.id ∉ visited) (order : g.arguments n = .ok kids) :
    g.Tally root (n.id :: visited) (kids ++ pending) := by
  have same : kids.Perm (g.children n.id) := perm_of_orderSiblings? (arguments_eq_ok.mp order)
  have arc : ∀ {v}, v ∈ kids → ⟨n.id, v, .ast⟩ ∈ g.edges :=
    fun hv => sound.mem_children.mp (same.mem_iff.mp hv)
  have here : n.id ∈ visited ++ n.id :: pending := by simp
  have split : ∀ {v}, v ∈ n.id :: visited ++ (kids ++ pending) →
      v ∈ visited ++ n.id :: pending ∨ v ∈ kids := by
    intro v hv
    simp only [List.mem_append, List.mem_cons] at hv ⊢
    tauto
  refine ⟨List.nodup_cons.mpr ⟨fresh, tally.nodup⟩, ?_, ?_, ?_, ?_⟩
  · intro v hv
    rcases split hv with old | new
    · exact tally.inside v old
    · exact (hasEnds_iff.mp (sound.ends _ (arc new))).2
  · intro v hv
    rcases split hv with old | new
    · exact tally.reached v old
    · exact (tally.reached n.id here).tail (arc new)
  · have moved : (n.id :: visited ++ (kids ++ pending)).Perm
        (kids ++ (visited ++ n.id :: pending)) := by
      rw [List.perm_iff_count]
      intro v
      simp only [List.count_append, List.count_cons]
      omega
    refine moved.trans ((same.append tally.balance).trans ?_)
    rw [List.flatMap_cons]
    exact List.perm_middle
  · intro m hm seen
    rcases List.mem_cons.mp seen with same | seen
    · rw [same] at hm
      obtain rfl := Option.some.inj (found.symm.trans hm)
      exact ⟨kids, order⟩
    · exact tally.ordered m hm seen

/-! ## Readings -/

/-- The result satisfies a condition, or is an error that has a reason. -/
def Outcome (g : Graph) (root : Nat) {α : Type} (holds : α → Prop) : Except DecodeError α → Prop
  | .ok a => holds a
  | .error e => g.Refusal root e

theorem Outcome.bind {g : Graph} {root : Nat} {α β : Type} {P : α → Prop} {Q : β → Prop}
    {x : Except DecodeError α} {k : α → Except DecodeError β} (first : g.Outcome root P x)
    (next : ∀ a, P a → g.Outcome root Q (k a)) : g.Outcome root Q (x >>= k) := by
  cases x with
  | error e => exact first
  | ok a => exact next a first

theorem enter_outcome {g : Graph} {root id : Nat} {visited pending : List Nat}
    (sound : g.Sound) (tally : g.Tally root visited (id :: pending)) :
    g.Outcome root (fun n => n.id = id ∧ g.node? id = some n ∧ id ∉ visited)
      (g.enter id visited) := by
  obtain ⟨n, rfl, found⟩ := sound.exists_node? (tally.inside id (by simp))
  by_cases seen : n.id ∈ visited
  · rw [enter_of_mem found seen]
    exact .revisited found tally seen
  · rw [enter_eq_ok.mpr ⟨found, seen⟩]
    exact ⟨rfl, found, seen⟩

theorem arguments_outcome {g : Graph} {root : Nat} {n : Node} (found : g.node? n.id = some n)
    (reached : g.Reaches root n.id) :
    g.Outcome root (fun kids => g.arguments n = .ok kids) (g.arguments n) := by
  cases order : g.orderSiblings? n.label (g.children n.id) with
  | none =>
    have refused : g.arguments n = .error (.invalidChildArrangement n) := by
      simp [arguments, order]
    rw [refused]
    exact .unordered found reached order
  | some kids =>
    rw [arguments_eq_ok.mpr order]
    rfl

theorem readAll_outcome {g : Graph} {root fuel : Nat}
    {read : Nat → List Nat → Except DecodeError (Formula × List Nat)}
    (step : ∀ {id visited pending}, g.Tally root visited (id :: pending) →
      g.size ≤ fuel + visited.length →
      g.Outcome root (fun r => g.Tally root r.2 pending ∧ visited.length ≤ r.2.length)
        (read id visited))
    {kids visited pending : List Nat} (tally : g.Tally root visited (kids ++ pending))
    (enough : g.size ≤ fuel + visited.length) :
    g.Outcome root (fun r => g.Tally root r.2 pending ∧ visited.length ≤ r.2.length)
      (readAll read kids visited) := by
  induction kids generalizing visited with
  | nil => exact ⟨tally, Nat.le_refl _⟩
  | cons id kids ih =>
    rw [readAll]
    refine (step tally enough).bind ?_
    rintro ⟨f, after⟩ ⟨later, longer⟩
    simp only at later longer
    refine (ih later (by omega)).bind ?_
    rintro ⟨fs, last⟩ ⟨done, longest⟩
    exact ⟨done, Nat.le_trans longer longest⟩

/-- A reading keeps the tally or has a reason to stop. Running out of fuel is no such reason: if
the fuel was enough for the nodes that were not visited before, they have all been visited. -/
theorem read_outcome {g : Graph} (sound : g.Sound) {root fuel id : Nat}
    {visited pending : List Nat} (tally : g.Tally root visited (id :: pending))
    (enough : g.size ≤ fuel + visited.length) :
    g.Outcome root (fun r => g.Tally root r.2 pending ∧ visited.length ≤ r.2.length)
      (g.read false fuel id visited) := by
  induction fuel generalizing id visited pending with
  | zero =>
    rw [read]
    refine (enter_outcome sound tally).bind ?_
    rintro n ⟨_, _, fresh⟩
    exact absurd (tally.mem_of_size_le (by omega) (tally.inside id (by simp))) fresh
  | succ fuel ih =>
    rw [read]
    refine (enter_outcome sound tally).bind ?_
    rintro n ⟨rfl, found, fresh⟩
    refine (arguments_outcome found (tally.reached n.id (by simp))).bind fun kids order => ?_
    have enough' : g.size ≤ fuel + (n.id :: visited).length := by
      rw [List.length_cons]
      omega
    refine (readAll_outcome ih (tally.visit sound found fresh order) enough').bind ?_
    rintro ⟨args, last⟩ ⟨done, longer⟩
    exact ⟨done, Nat.le_trans (Nat.le_succ _) longer⟩

/-- From the starting node, the decoder reads all nodes or has a reason to refuse the graph. -/
theorem decode_outcome {g : Graph} (sound : g.Sound) {root : Node}
    (start : g.startingNode = .ok root) :
    g.Outcome root.id
      (fun _ => ∃ visited, g.Tally root.id visited [] ∧ ∀ v < g.size, v ∈ visited)
      (g.decode false) := by
  have found := ((startingNode_eq_ok_iff sound).mp start).1
  have tally := Tally.start (lt_size_of_node? found)
  rw [decode, start]
  refine (read_outcome sound tally (Nat.le_add_right _ _)).bind ?_
  rintro ⟨f, visited⟩ ⟨done, _⟩
  simp only at done ⊢
  cases count : (g.nodes.filter (!visited.contains ·.id)).length with
  | zero => exact ⟨visited, done, (length_unvisited_eq_zero sound).mp count⟩
  | succ k =>
    have refusal := Refusal.unreachable done (by omega)
    rwa [count] at refusal

theorem exists_tally_of_decode {g : Graph} (sound : g.Sound) {f : Formula}
    (h : g.decode false = .ok f) {root : Node} (start : g.startingNode = .ok root) :
    ∃ visited, g.Tally root.id visited [] ∧ visited.Perm (List.range g.size) := by
  have outcome := decode_outcome sound start
  rw [h] at outcome
  obtain ⟨visited, tally, all⟩ := outcome
  refine ⟨visited, tally, perm_range_of_nodup tally.nodup (fun v hv => ?_) all⟩
  exact tally.inside v (by simpa using hv)

end FolGraph.Graph
