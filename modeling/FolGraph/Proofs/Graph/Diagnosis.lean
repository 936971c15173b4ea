import FolGraph.Proofs.Graph.WellFormed
import Mathlib.Data.Set.Card

/-!
# What the errors of the decoder say

An error of the decoder is true of the graph. `decode_error_explained` says when there is no
starting node or more than one, and what each other error says of a graph with one starting node:
two arcs enter the node that is revisited, the arcs between the arguments that have no order are no
path through them, and the unreachable nodes are counted.
-/

namespace FolGraph.Graph

/-- The two nodes with the lowest ids that no arc enters. -/
structure FirstUnentered (g : Graph) (a b : Node) : Prop where
  found : g.node? a.id = some a ∧ g.node? b.id = some b
  free : g.Unentered a.id ∧ g.Unentered b.id
  ordered : a.id < b.id
  lowest : ∀ v < g.size, g.Unentered v → v = a.id ∨ b.id ≤ v

/-- Arcs between the arguments of a node bear on their order, but they are no simple path through
all of them. An argument that is listed twice lies on no such path. -/
def Disarranged (g : Graph) (label : String) (children : List Nat) : Prop :=
  g.argumentArcs label children ≠ [] ∧
    ¬ ∃ path, path.Nodup ∧ path.Perm children ∧
      (g.argumentArcs label children).Perm (chainArcs path)

/-- What an error says of a graph whose only starting node is `r`. -/
inductive Explained (g : Graph) (r : Nat) : DecodeError → Prop where
  | disarranged {n : Node} (found : g.node? n.id = some n) (reached : g.Reaches r n.id)
      (several : 2 ≤ (g.children n.id).length)
      (disarranged : g.Disarranged n.label (g.children n.id)) :
      Explained g r (.invalidChildArrangement n)
  | revisited {n : Node} {a b : Nat} (found : g.node? n.id = some n)
      (twice : [⟨a, n.id, .ast⟩, ⟨b, n.id, .ast⟩].Sublist g.edges)
      (reached : g.Reaches r a ∧ g.Reaches r b) : Explained g r (.revisitedNode n)
  | unreachable {count : Nat} (some : 0 < count)
      (all : {v | v < g.size ∧ ¬ g.Reaches r v}.ncard = count) :
      Explained g r (.unreachableNodes count)

/-! ## Starting nodes -/

theorem Sound.pairwise_id_nodes {g : Graph} (sound : g.Sound) :
    g.nodes.Pairwise fun a b => a.id < b.id := by
  rw [← List.pairwise_map, sound.map_id_nodes]
  exact List.pairwise_lt_range

theorem Sound.exists_mem_startingNodes {g : Graph} (sound : g.Sound) {v : Nat} (hv : v < g.size)
    (free : g.Unentered v) : ∃ n ∈ g.startingNodes, n.id = v := by
  obtain ⟨n, rfl, found⟩ := sound.exists_node? hv
  exact ⟨n, (mem_startingNodes sound).mpr ⟨List.mem_of_getElem? found, free⟩, rfl⟩

theorem startingNode_eq_none {g : Graph} :
    g.startingNode = .error .noStartingNode ↔ g.startingNodes = [] := by
  unfold startingNode
  split <;> simp_all

theorem startingNode_eq_multiple {g : Graph} {a b : Node} :
    g.startingNode = .error (.multipleStartingNodes a b) ↔
      ∃ rest, g.startingNodes = a :: b :: rest := by
  unfold startingNode
  split <;> simp_all

theorem startingNode_error_cases {g : Graph} {e : DecodeError} (h : g.startingNode = .error e) :
    e = .noStartingNode ∨ ∃ a b, e = .multipleStartingNodes a b := by
  unfold startingNode at h
  split at h
  · exact Or.inl (Except.error.inj h).symm
  · cases h
  · exact Or.inr ⟨_, _, (Except.error.inj h).symm⟩

theorem startingNode_eq_none_iff {g : Graph} (sound : g.Sound) :
    g.startingNode = .error .noStartingNode ↔ ∀ v < g.size, ¬ g.Unentered v := by
  rw [startingNode_eq_none, List.eq_nil_iff_forall_not_mem]
  constructor
  · intro none v hv free
    obtain ⟨n, hn, _⟩ := sound.exists_mem_startingNodes hv free
    exact none n hn
  · intro entered n hn
    obtain ⟨member, free⟩ := (mem_startingNodes sound).mp hn
    exact entered n.id (lt_size_of_node? (sound.node?_of_mem member)) free

/-- If there are several starting nodes, the first two are reported. -/
theorem firstUnentered_of_startingNode {g : Graph} (sound : g.Sound) {a b : Node}
    (h : g.startingNode = .error (.multipleStartingNodes a b)) : g.FirstUnentered a b := by
  obtain ⟨rest, start⟩ := startingNode_eq_multiple.mp h
  have sorted : g.startingNodes.Pairwise fun a b => a.id < b.id := sound.pairwise_id_nodes.filter _
  rw [start, List.pairwise_cons, List.pairwise_cons] at sorted
  obtain ⟨afterFirst, afterSecond, _⟩ := sorted
  have starting : ∀ n ∈ a :: b :: rest, n ∈ g.nodes ∧ g.Unentered n.id :=
    fun n hn => (mem_startingNodes sound).mp (start ▸ hn)
  obtain ⟨memberA, freeA⟩ := starting a (by simp)
  obtain ⟨memberB, freeB⟩ := starting b (by simp)
  refine ⟨⟨sound.node?_of_mem memberA, sound.node?_of_mem memberB⟩, ⟨freeA, freeB⟩,
    afterFirst b (by simp), fun v hv free => ?_⟩
  obtain ⟨n, hn, rfl⟩ := sound.exists_mem_startingNodes hv free
  rw [start, List.mem_cons, List.mem_cons] at hn
  rcases hn with rfl | rfl | later
  · exact Or.inl rfl
  · exact Or.inr (Nat.le_refl _)
  · exact Or.inr (Nat.le_of_lt (afterSecond n later))

theorem exists_startingNode_eq_multiple_iff {g : Graph} (sound : g.Sound) :
    (∃ a b, g.startingNode = .error (.multipleStartingNodes a b)) ↔
      ∃ u v, u < v ∧ v < g.size ∧ g.Unentered u ∧ g.Unentered v := by
  constructor
  · rintro ⟨a, b, h⟩
    obtain ⟨⟨_, found⟩, ⟨freeA, freeB⟩, ordered, _⟩ := firstUnentered_of_startingNode sound h
    exact ⟨a.id, b.id, ordered, lt_size_of_node? found, freeA, freeB⟩
  · rintro ⟨u, v, ordered, hv, freeU, freeV⟩
    obtain ⟨m, hm, rfl⟩ := sound.exists_mem_startingNodes (Nat.lt_trans ordered hv) freeU
    obtain ⟨n, hn, rfl⟩ := sound.exists_mem_startingNodes hv freeV
    simp only [startingNode_eq_multiple]
    match g.startingNodes, hm, hn with
    | [k], hm, hn =>
      obtain rfl := List.mem_singleton.mp hm
      obtain rfl := List.mem_singleton.mp hn
      exact absurd ordered (Nat.lt_irrefl _)
    | a :: b :: rest, _, _ => exact ⟨a, b, rest, rfl⟩

/-! ## Arguments without an order -/

/-- Arguments have no order only if there are several, and the arcs between them are no path. -/
theorem disarranged_of_orderSiblings? {g : Graph} (sound : g.Sound) {label : String}
    {children : List Nat} (none : g.orderSiblings? label children = none) :
    2 ≤ children.length ∧ g.Disarranged label children := by
  by_cases few : children.length < 2
  · rw [orderSiblings?_of_length_lt_two few] at none
    cases none
  · refine ⟨by omega, (siblingArcs_eq_nil_iff sound _ _).not.mp fun unlinked => ?_, ?_⟩
    · rw [orderSiblings?, if_neg few] at none
      simp [unlinked] at none
    · rintro ⟨path, nodup, all, chain⟩
      obtain ⟨ordered, order⟩ := (exists_orderSiblings?_iff sound (all.nodup_iff.mp nodup)
        (by omega)).mpr (Or.inr ⟨path, all, chain⟩)
      rw [none] at order
      cases order

/-! ## Nodes reached twice or not at all -/

/-- A node that is visited and pending again is an argument twice. -/
theorem Tally.two_le_count {g : Graph} {root : Nat} {visited pending : List Nat} {v : Nat}
    (tally : g.Tally root visited (v :: pending)) (seen : v ∈ visited) (entered : root ≠ v) :
    2 ≤ (visited.flatMap g.children).count v := by
  have balance := tally.count_eq v
  have once := List.count_pos_iff.mpr seen
  rw [List.count_cons_self, if_neg entered] at balance
  omega

/-- An argument that is listed twice below visited nodes is entered by two `ast` arcs. -/
theorem Sound.exists_two_arcs {g : Graph} (sound : g.Sound) {visited : List Nat}
    (nodup : visited.Nodup) {v : Nat} (twice : 2 ≤ (visited.flatMap g.children).count v) :
    ∃ a b, [⟨a, v, .ast⟩, ⟨b, v, .ast⟩].Sublist g.edges ∧ a ∈ visited ∧ b ∈ visited := by
  rw [(sound.flatMap_children_perm nodup).count_eq, List.count, List.countP_map,
    List.countP_eq_length_filter, edgesOfRole, List.filter_filter, List.filter_filter] at twice
  generalize hes : g.edges.filter _ = es at twice
  have arcs : ∀ e ∈ es, e ∈ g.edges ∧ e = ⟨e.source, v, .ast⟩ ∧ e.source ∈ visited := by
    intro e he
    rw [← hes, List.mem_filter] at he
    obtain ⟨a, c, role⟩ := e
    obtain ⟨member, ⟨target, source⟩, ast⟩ := by
      simpa only [Function.comp, Bool.and_eq_true, beq_iff_eq, List.contains_iff_mem] using he
    exact ⟨member, by rw [target, ast], source⟩
  have sub : es.Sublist g.edges := hes ▸ List.filter_sublist
  match es, twice, arcs, sub with
  | d :: e :: rest, _, arcs, sub =>
    obtain ⟨_, hd, first⟩ := arcs d (by simp)
    obtain ⟨_, he, second⟩ := arcs e (by simp)
    refine ⟨d.source, e.source, ?_, first, second⟩
    rw [← hd, ← he]
    exact (List.sublist_append_left [d, e] rest).trans sub

/-- When nothing is pending, the nodes that were not visited are those that are not reached. -/
theorem Tally.ncard_unreached {g : Graph} (sound : g.Sound) {root : Nat} {visited : List Nat}
    (tally : g.Tally root visited []) :
    {v | v < g.size ∧ ¬ g.Reaches root v}.ncard =
      (g.nodes.filter (!visited.contains ·.id)).length := by
  have reached : ∀ v, v ∈ visited ↔ g.Reaches root v := fun v =>
    ⟨fun seen => tally.reached v (by simpa using seen), tally.mem_of_reaches sound⟩
  have distinct : ((g.nodes.filter (!visited.contains ·.id)).map (·.id)).Nodup := by
    refine List.Nodup.sublist (List.filter_sublist.map _) ?_
    rw [sound.map_id_nodes]
    exact List.nodup_range
  have same : {v | v < g.size ∧ ¬ g.Reaches root v} =
      ((g.nodes.filter (!visited.contains ·.id)).map (·.id)).toFinset := by
    ext v
    simp only [Set.mem_ofPred_eq, List.coe_toFinset, List.mem_map, List.mem_filter,
      Bool.not_eq_true', List.contains_eq_mem, decide_eq_false_iff_not, reached]
    constructor
    · rintro ⟨hv, apart⟩
      obtain ⟨n, rfl, found⟩ := sound.exists_node? hv
      exact ⟨n, ⟨List.mem_of_getElem? found, apart⟩, rfl⟩
    · rintro ⟨n, ⟨hn, apart⟩, rfl⟩
      exact ⟨lt_size_of_node? (sound.node?_of_mem hn), apart⟩
  rw [same, Set.ncard_coe_finset, List.toFinset_card_of_nodup distinct, List.length_map]

/-! ## Decoding -/

/-- Every reason of the decoder to refuse a graph is a fact about the graph. -/
theorem Refusal.explained {g : Graph} (sound : g.Sound) {root : Nat} (free : g.Unentered root)
    {e : DecodeError} (refusal : g.Refusal root e) : g.Explained root e := by
  cases refusal with
  | @unordered n found reached none =>
    obtain ⟨several, disarranged⟩ := disarranged_of_orderSiblings? sound none
    exact .disarranged found reached several disarranged
  | @revisited n visited pending found tally seen =>
    have entered : root ≠ n.id := by
      -- the root is not pending again, since no arc enters it
      rintro rfl
      have balance := tally.count_eq n.id
      have once := List.count_pos_iff.mpr seen
      have inside : ∀ u ∈ visited, u < g.size :=
        fun u hu => tally.inside u (List.mem_append_left _ hu)
      have arcs := sound.count_flatMap_children_le tally.nodup inside n.id
      rw [parentCount_eq_zero free] at arcs
      rw [List.count_cons_self, if_pos rfl] at balance
      omega
    obtain ⟨a, b, twice, ha, hb⟩ :=
      sound.exists_two_arcs tally.nodup (tally.two_le_count seen entered)
    exact .revisited found twice ⟨tally.reached a (List.mem_append_left _ ha),
      tally.reached b (List.mem_append_left _ hb)⟩
  | @unreachable visited tally some =>
    exact .unreachable (Nat.pos_of_ne_zero some) (tally.ncard_unreached sound)

theorem decode_of_startingNode_eq_error {g : Graph} {strict : Bool} {e : DecodeError}
    (start : g.startingNode = .error e) : g.decode strict = .error e := by
  rw [decode, start]
  rfl

/-- An error is one of the starting node, or explained by what is reached from it. -/
theorem decode_eq_error_cases {g : Graph} (sound : g.Sound) {e : DecodeError}
    (h : g.decode false = .error e) :
    g.startingNode = .error e ∨
      ∃ root, g.startingNode = .ok root ∧ g.Explained root.id e := by
  cases start : g.startingNode with
  | error e' =>
    rw [decode_of_startingNode_eq_error start] at h
    rw [Except.error.inj h]
    exact Or.inl rfl
  | ok root =>
    have outcome := decode_outcome sound start
    obtain ⟨found, source⟩ := (startingNode_eq_ok_iff sound).mp start
    rw [h] at outcome
    have free := (source root.id (lt_size_of_node? found)).mpr rfl
    exact Or.inr ⟨root, rfl, Refusal.explained sound free outcome⟩

theorem decode_eq_error_iff_startingNode {g : Graph} (sound : g.Sound) {e : DecodeError}
    (unexplained : ∀ r, ¬ g.Explained r e) :
    g.decode false = .error e ↔ g.startingNode = .error e := by
  refine ⟨fun h => ?_, decode_of_startingNode_eq_error⟩
  rcases decode_eq_error_cases sound h with start | ⟨root, _, explained⟩
  · exact start
  · exact absurd explained (unexplained root.id)

theorem decode_eq_multiple_iff {g : Graph} (sound : g.Sound) {a b : Node} :
    g.decode false = .error (.multipleStartingNodes a b) ↔
      g.startingNode = .error (.multipleStartingNodes a b) :=
  decode_eq_error_iff_startingNode sound fun _ explained => by cases explained

/-- Two operands that share an argument. -/
def sharing : Graph :=
  [⟨0, 1, .ast⟩, ⟨0, 2, .ast⟩, ⟨1, 3, .ast⟩, ⟨2, 3, .ast⟩].foldl .link
    (["&", "f", "g", "X"].foldl .addNode .empty)

theorem built_sharing : sharing.Built :=
  (Built.empty.foldl_addNode ["&", "f", "g", "X"]).foldl_link (by decide)

/-- The errors of the decoder say what is wrong with a graph: that arcs enter all nodes, or leave
more than one unentered, of which the two with the lowest ids are named, or else what is wrong below
the only starting node. It never reports a wrong number of arguments or a declaration with
arguments. -/
theorem decode_error_explained {g : Graph} (built : g.Built) :
    (g.decode false = .error .noStartingNode ↔ ∀ v < g.size, ¬ g.Unentered v) ∧
      ((∃ a b, g.decode false = .error (.multipleStartingNodes a b)) ↔
        ∃ u v, u < v ∧ v < g.size ∧ g.Unentered u ∧ g.Unentered v) ∧
      (∀ a b, g.decode false = .error (.multipleStartingNodes a b) → g.FirstUnentered a b) ∧
      (∀ r < g.size, (∀ v < g.size, (g.Unentered v ↔ v = r)) →
        ∀ e, g.decode false = .error e → g.Explained r e) ∧
      (∀ n expected count, g.decode false ≠ .error (.wrongSuccessorCount n expected count)) ∧
      ∀ n count, g.decode false ≠ .error (.nonTerminalNameNode n count) := by
  have sound := built.sound
  refine ⟨?_, ?_, ?_, ?_, ?_, ?_⟩
  · rw [decode_eq_error_iff_startingNode sound fun _ explained => by cases explained]
    exact startingNode_eq_none_iff sound
  · simp only [decode_eq_multiple_iff sound]
    exact exists_startingNode_eq_multiple_iff sound
  · intro a b h
    exact firstUnentered_of_startingNode sound ((decode_eq_multiple_iff sound).mp h)
  · intro r hr only e h
    obtain ⟨n, rfl, found⟩ := sound.exists_node? hr
    have start := (startingNode_eq_ok_iff sound).mpr ⟨found, only⟩
    rcases decode_eq_error_cases sound h with failed | ⟨root, started, explained⟩
    · rw [start] at failed
      cases failed
    · obtain rfl := Except.ok.inj (start.symm.trans started)
      exact explained
  · intro n expected count h
    rw [decode_eq_error_iff_startingNode sound fun _ explained => by cases explained] at h
    simpa using startingNode_error_cases h
  · intro n count h
    rw [decode_eq_error_iff_startingNode sound fun _ explained => by cases explained] at h
    simpa using startingNode_error_cases h

theorem decode_error_explained_sharing : sharing.Built ∧
    sharing.decode false = .error (.revisitedNode ⟨3, .var, "X"⟩) ∧
      sharing.Explained 0 (.revisitedNode ⟨3, .var, "X"⟩) := by
  have start : sharing.startingNode = .ok ⟨0, .conjunction, "&"⟩ := rfl
  have refused : sharing.decode false = .error (.revisitedNode ⟨3, .var, "X"⟩) := rfl
  obtain ⟨found, only⟩ := (startingNode_eq_ok_iff built_sharing.sound).mp start
  obtain ⟨_, _, _, explained, _⟩ := decode_error_explained built_sharing
  exact ⟨built_sharing, refused, explained 0 (lt_size_of_node? found) only _ refused⟩

end FolGraph.Graph
