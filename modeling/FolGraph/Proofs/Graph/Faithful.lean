import FolGraph.Proofs.Graph.WellFormed
import Mathlib.Data.Set.Function

/-!
# Faithful decoding

The positions of a decoded formula are the nodes of the graph: `readAt` gives the node that was
read at a position, and `decode_faithful` says that it is a bijection under which labels stay and
arguments are the arguments of the node, in the order of their chain or else of insertion.
-/

namespace FolGraph.Graph

/-- The `ncs` arcs between the arguments of a node. -/
def chainOf (g : Graph) (v : Nat) : List Edge :=
  g.edges.filter fun e =>
    e.role == .ncs && ((g.children v).contains e.source && (g.children v).contains e.target)

/-- The arguments of a node in the order of their chain, or of insertion if no chain links them. -/
structure ListsArguments (g : Graph) (v : Nat) (kids : List Nat) : Prop where
  all : kids.Perm (g.children v)
  unlinked : g.chainOf v = [] → kids = g.children v
  /-- A single argument may be linked to itself, which says nothing about the order. -/
  linked : g.chainOf v ≠ [] → 2 ≤ kids.length → (g.chainOf v).Perm (chainArcs kids)

/-- The node read at a position, if the nodes were read in the order `ids`. -/
def readAt (t : Formula) (ids p : List Nat) : Nat := ids[t.index p]?.getD 0

/-! ## The order of arguments -/

theorem chainOf_eq (g : Graph) (label : String) (v : Nat) :
    g.chainOf v = (g.argumentArcs label (g.children v)).filter (·.role == .ncs) := by
  rw [chainOf, argumentArcs, List.filter_filter]
  apply List.filter_congr
  intro e _
  by_cases ncs : e.role = .ncs
  · simp [entersBody, ncs]
  · have other : (e.role == Role.ncs) = false := beq_eq_false_iff_ne.mpr ncs
    simp [other]

theorem filter_ncs_chainArcs (path : List Nat) :
    (chainArcs path).filter (·.role == .ncs) = chainArcs path := by
  rw [List.filter_eq_self]
  intro e he
  simpa using role_of_mem_chainArcs he

theorem listsArguments_of_arguments {g : Graph} (sound : g.Sound) {n : Node} {kids : List Nat}
    (nodup : (g.children n.id).Nodup) (h : g.arguments n = .ok kids) :
    g.ListsArguments n.id kids := by
  have order := arguments_eq_ok.mp h
  have all := perm_of_orderSiblings? order
  by_cases few : (g.children n.id).length < 2
  · rw [orderSiblings?_of_length_lt_two few] at order
    obtain rfl := Option.some.inj order
    exact ⟨all, fun _ => rfl, fun _ several => by omega⟩
  · rw [orderSiblings?_eq_some_iff sound nodup (by omega)] at order
    rcases order with ⟨none, rfl⟩ | ⟨_, path⟩
    · refine ⟨all, fun _ => rfl, fun linked => absurd ?_ linked⟩
      rw [chainOf_eq g n.label, none, List.filter_nil]
    · have chain := path.filter (·.role == .ncs)
      rw [← chainOf_eq, filter_ncs_chainArcs] at chain
      refine ⟨all, fun unlinked => ?_, fun _ _ => chain⟩
      have length := chain.length_eq
      rw [unlinked, length_chainArcs, all.length_eq, List.length_nil] at length
      omega

/-! ## The nodes read below a position -/

theorem Spells.eq_cons {g : Graph} {id : Nat} {f : Formula} {ids : List Nat}
    (h : g.Spells id f ids) : ∃ rest, ids = id :: rest := by
  cases h
  exact ⟨_, rfl⟩

/-- The nodes read for one of several formulas stand together, after those of the formulas before
it. -/
theorem SpellsAll.exists_arg {g : Graph} {kids ids : List Nat} {fs : List Formula}
    (h : g.SpellsAll kids fs ids) {i : Nat} {a : Formula} (ha : fs[i]? = some a) :
    ∃ w front mid back, kids[i]? = some w ∧ g.Spells w a mid ∧ ids = front ++ (mid ++ back) ∧
      front.length = Formula.sizeAll (fs.take i) := by
  induction fs generalizing kids ids i with
  | nil => cases ha
  | cons f fs ih =>
    cases h with
    | @cons id _ kids ids rest _ first others =>
      cases i with
      | zero =>
        obtain rfl := Option.some.inj ha
        exact ⟨id, [], ids, rest, rfl, first, rfl, rfl⟩
      | succ i =>
        obtain ⟨w, front, mid, back, hw, spells, rfl, length⟩ := ih others ha
        refine ⟨w, ids ++ front, mid, back, hw, spells, (List.append_assoc ..).symm, ?_⟩
        rw [List.length_append, first.length_eq, length, List.take_succ_cons, Formula.sizeAll]

/-- What is read below a position is spelled by the node read there. -/
theorem Spells.exists_sub {g : Graph} {id : Nat} {f s : Formula} {ids p : List Nat}
    (h : g.Spells id f ids) (hs : f.sub? p = some s) :
    ∃ v front mid back, g.Spells v s mid ∧ ids = front ++ (mid ++ back) ∧
      front.length = f.index p := by
  induction p generalizing id f ids with
  | nil =>
    obtain rfl := Option.some.inj ((Formula.sub?_nil f).symm.trans hs)
    exact ⟨id, [], ids, [], h, by simp, (Formula.index_nil f).symm⟩
  | cons i p ih =>
    obtain ⟨a, ha, below⟩ := Formula.sub?_cons_eq_some.mp hs
    cases h with
    | @node _ n kids ids args found ordered rest =>
      obtain ⟨w, front, mid, back, _, spells, rfl, length⟩ := rest.exists_arg ha
      obtain ⟨v, front', mid', back', spells', rfl, length'⟩ := ih spells below
      refine ⟨v, id :: (front ++ front'), mid', back' ++ back, spells', by simp, ?_⟩
      rw [Formula.index_cons ha, List.length_cons, List.length_append, length, length']
      simp only [Formula.args_node]
      omega

theorem Spells.getElem?_index {g : Graph} {t s : Formula} {p front mid : List Nat} {v : Nat}
    (spells : g.Spells v s mid) (length : front.length = t.index p) (back : List Nat) :
    (front ++ (mid ++ back))[t.index p]? = some v := by
  obtain ⟨rest, rfl⟩ := spells.eq_cons
  rw [← length]
  simp

/-- At every position a node with its label was read, and the nodes read for its arguments are the
arguments of the node in their order. -/
theorem Spells.node_at {g : Graph} {id : Nat} {t s : Formula} {ids p : List Nat}
    (h : g.Spells id t ids) (hs : t.sub? p = some s) :
    ∃ v n, ids[t.index p]? = some v ∧ g.node? v = some n ∧ n.label = s.label ∧
      g.arguments n = .ok ((List.range s.args.length).map fun i => readAt t ids (p ++ [i])) := by
  obtain ⟨v, front, mid, back, spells, rfl, length⟩ := h.exists_sub hs
  have here := spells.getElem?_index length back
  cases spells with
  | @node _ n kids mid args found ordered rest =>
    refine ⟨v, n, here, found, rfl, ?_⟩
    have read : ∀ i (hi : i < kids.length),
        kids[i] = readAt t (front ++ (v :: mid ++ back)) (p ++ [i]) := by
      intro i hi
      have bound : i < args.length := rest.length_eq_length ▸ hi
      have ha := List.getElem?_eq_getElem bound
      obtain ⟨w, front', mid', back', hw, spells', rfl, length'⟩ := rest.exists_arg ha
      have position : (front ++ v :: front').length = t.index (p ++ [i]) := by
        rw [Formula.index_append hs, Formula.index_singleton, List.length_append,
          List.length_cons, length, length', Formula.args_node]
        omega
      have there := spells'.getElem?_index position (back' ++ back)
      have same : front ++ v :: front' ++ (mid' ++ (back' ++ back)) =
          front ++ (v :: (front' ++ (mid' ++ back')) ++ back) := by simp
      rw [same] at there
      rw [readAt, there]
      exact (List.getElem?_eq_some_iff.mp hw).2
    rw [ordered]
    congr 1
    apply List.ext_getElem (by simp [rest.length_eq_length])
    intro i hi _
    rw [read i hi]
    simp

/-! ## Decoding -/

theorem bijOn_readAt {g : Graph} {t : Formula} {ids : List Nat} (length : ids.length = t.size)
    (all : ids.Perm (List.range g.size)) :
    Set.BijOn (readAt t ids) {p | p ∈ t.positions} {v | v < g.size} := by
  have nodup : ids.Nodup := all.nodup_iff.mpr List.nodup_range
  have read : ∀ {p s}, t.sub? p = some s → ids[t.index p]? = some (readAt t ids p) := by
    intro p s hs
    have bound : t.index p < ids.length := length ▸ Formula.index_lt hs
    rw [readAt, List.getElem?_eq_getElem bound, Option.getD_some]
  refine ⟨fun p hp => ?_, fun p hp q hq same => ?_, fun v hv => ?_⟩
  · obtain ⟨s, hs⟩ := (Formula.mem_positions t p).mp hp
    exact List.mem_range.mp (all.mem_iff.mp (List.mem_of_getElem? (read hs)))
  · obtain ⟨s, hs⟩ := (Formula.mem_positions t p).mp hp
    obtain ⟨s', hs'⟩ := (Formula.mem_positions t q).mp hq
    have equal := (read hs).trans (same ▸ (read hs').symm)
    have bound : t.index p < ids.length := length ▸ Formula.index_lt hs
    exact Formula.index_injective hs hs' ((List.getElem?_inj bound nodup).mp equal)
  · obtain ⟨k, found⟩ := List.mem_iff_getElem?.mp (all.mem_iff.mpr (List.mem_range.mpr hv))
    obtain ⟨p, s, hs, rfl⟩ := Formula.exists_index
      (length ▸ (List.getElem?_eq_some_iff.mp found).1)
    exact ⟨p, (Formula.mem_positions t p).mpr ⟨s, hs⟩, Option.some.inj ((read hs).symm.trans found)⟩

/-- All nodes but the root are entered by one `ast` arc each. -/
theorem length_ast_of_decode {g : Graph} (sound : g.Sound) {t : Formula}
    (h : g.decode false = .ok t) : (g.edgesOfRole .ast).length + 1 = g.size := by
  obtain ⟨root, _, start, _⟩ := exists_spells_of_decode sound h
  obtain ⟨visited, tally, all⟩ := exists_tally_of_decode sound h start
  have balance := tally.balance.length_eq
  rw [List.append_nil, List.length_cons, (all.flatMap_right g.children).length_eq,
    sound.flatMap_children.length_eq, List.length_map, all.length_eq, List.length_range] at balance
  exact balance.symm

/-- Decoding keeps every node, once, with its label and with its arguments in their order. -/
theorem decode_faithful {g : Graph} (built : g.Built) {strict : Bool} {t : Formula}
    (h : g.decode strict = .ok t) :
    (∃ node : List Nat → Nat,
      Set.BijOn node {p | p ∈ t.positions} {v | v < g.size} ∧
        (∀ v < g.size, (g.Unentered v ↔ v = node [])) ∧
        ∀ p s, t.sub? p = some s →
          (∃ n, g.node? (node p) = some n ∧ n.label = s.label) ∧
            g.ListsArguments (node p)
              ((List.range s.args.length).map fun i => node (p ++ [i]))) ∧
      t.size = g.size ∧ (g.edgesOfRole .ast).length + 1 = g.size := by
  have sound := built.sound
  have lax := decode_false_of_decode sound h
  obtain ⟨root, ids, start, spells, all⟩ := exists_spells_of_decode sound h
  have length := spells.length_eq
  have rooted := rootedAt_of_decode sound lax start
  refine ⟨⟨readAt t ids, bijOn_readAt length all, ?_, ?_⟩, ?_, length_ast_of_decode sound lax⟩
  · obtain ⟨rest, rfl⟩ := spells.eq_cons
    have first : readAt t (root.id :: rest) [] = root.id := by simp [readAt]
    rw [first]
    exact ((startingNode_eq_ok_iff sound).mp start).2
  · intro p s hs
    obtain ⟨v, n, read, found, label, order⟩ := spells.node_at hs
    obtain rfl := sound.ids v n found
    have here : readAt t ids p = n.id := by rw [readAt, read, Option.getD_some]
    rw [here]
    have nodup := sound.nodup_children (rooted.parentCount_le_one sound) (lt_size_of_node? found)
    exact ⟨⟨n, found, label⟩, listsArguments_of_arguments sound nodup order⟩
  · rw [← length, all.length_eq, List.length_range]

theorem decode_faithful_swapped : ∃ node : List Nat → Nat,
    Set.BijOn node {p | p ∈ [[], [0], [1]]} {v | v < 3} ∧
      swapped.ListsArguments (node []) [node [0], node [1]] := by
  have decoded : swapped.decode false = .ok (.node "f" [.leaf "a", .leaf "b"]) := rfl
  obtain ⟨⟨node, bijection, _, arguments⟩, _⟩ := decode_faithful built_swapped decoded
  exact ⟨node, bijection, (arguments [] _ rfl).2⟩

end FolGraph.Graph
