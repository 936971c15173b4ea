import FolGraph.Proofs.Encoding.RoundTrip
import FolGraph.Proofs.Graph.Faithful

/-!
# Encoded graphs in pre-order

The graph of a formula is laid out node by node in pre-order. `entering_encode` gives the arcs that
a node contributes: one from its parent, then at most one from the argument before it, then at most
one from its declaration. All of them come from smaller ids, so the graph has no cycle, and the
`ncs` arcs between the arguments of a node are one path. `encode_inPreOrder` says all of this.
-/

namespace FolGraph

/-- The labels whose arguments are not chained: the quantifiers and the unordered operators. -/
def unchainedLabels : List String := ["!", "?", "|", "&", "~", "=", "!="]

theorem Layout.ofLabel_eq_chained_iff_notMem {label : String} :
    Layout.ofLabel label = .chained ↔ label ∉ unchainedLabels := by
  rw [ofLabel_eq_chained_iff]
  simp [unchainedLabels, isQuantifier, isUnordered]
  tauto

namespace Graph

/-- The arcs, of any role, that enter a node, in the order of insertion. -/
def entering (g : Graph) (v : Nat) : List Edge := g.edges.filter (·.target == v)

/-- An arc of some role leads from one node to the other. -/
def Linked (g : Graph) (a b : Nat) : Prop := ∃ e ∈ g.edges, e.source = a ∧ e.target = b

/-- If ids grow along the arcs, no walk along them returns to its start. -/
theorem not_transGen_linked {g : Graph} (forward : ∀ e ∈ g.edges, e.source < e.target) (v : Nat) :
    ¬ Relation.TransGen g.Linked v v := by
  have grows : ∀ {a b}, Relation.TransGen g.Linked a b → a < b := by
    intro a b walk
    induction walk with
    | single arc =>
      obtain ⟨e, he, rfl, rfl⟩ := arc
      exact forward e he
    | tail _ arc ih =>
      obtain ⟨e, he, rfl, rfl⟩ := arc
      exact Nat.lt_trans ih (forward e he)
  exact fun walk => Nat.lt_irrefl v (grows walk)

/-- A graph laid out as a formula is: nodes in pre-order, and the arcs sorted by the node that they
enter, each of which is entered from its parent, from the argument before it if arguments are
chained, and from its declaration if it has one. -/
structure InPreOrder (g : Graph) (f : Formula) : Prop where
  size : g.size = f.size
  numbered : f.positions.map f.index = List.range g.size
  node : ∀ p s, f.sub? p = some s →
    g.node? (f.index p) = some ⟨f.index p, .ofLabel s.label, s.label⟩
  ast : ∀ a b, ⟨a, b, .ast⟩ ∈ g.edges ↔
    ∃ p i t, f.sub? (p ++ [i]) = some t ∧ a = f.index p ∧ b = f.index (p ++ [i])
  ncs : ∀ a b, ⟨a, b, .ncs⟩ ∈ g.edges ↔
    ∃ p i s, f.sub? p = some s ∧ s.label ∉ unchainedLabels ∧ i + 1 < s.args.length ∧
      a = f.index (p ++ [i]) ∧ b = f.index (p ++ [i + 1])
  once : g.edges.Nodup
  sorted : g.edges.Pairwise fun d e => d.target ≤ e.target
  entering : ∀ p i t, f.sub? (p ++ [i]) = some t →
    ∃ previous binder : Option Nat, g.entering (f.index (p ++ [i])) =
      ⟨f.index p, f.index (p ++ [i]), .ast⟩ ::
        (previous.toList.map (⟨·, f.index (p ++ [i]), .ncs⟩) ++
          binder.toList.map (⟨·, f.index (p ++ [i]), .ddg⟩))
  forward : ∀ e ∈ g.edges, e.source < e.target

end Graph

namespace Formula

open FolGraph.Graph (chainArcs chainOf_eq filter_ncs_chainArcs)

/-! ## The arcs that a node contributes -/

/-- Of arcs that are listed by their targets, those with one target stand together. -/
theorem filter_flatMap_of_target {α : Type} {key : α → Nat} {arcs : α → List Edge} {xs : List α}
    (numbered : (xs.map key).Nodup) (keyed : ∀ x, ∀ e ∈ arcs x, e.target = key x) {x : α}
    (hx : x ∈ xs) : (xs.flatMap arcs).filter (·.target == key x) = arcs x := by
  induction xs with
  | nil => cases hx
  | cons y ys ih =>
    rw [List.map_cons, List.nodup_cons] at numbered
    rw [List.flatMap_cons, List.filter_append]
    rcases List.mem_cons.mp hx with rfl | later
    · have here : (arcs x).filter (·.target == key x) = arcs x := by
        rw [List.filter_eq_self]
        intro e he
        simpa using keyed x e he
      have rest : (ys.flatMap arcs).filter (·.target == key x) = [] := by
        rw [List.filter_eq_nil_iff]
        intro e he same
        obtain ⟨y, hy, he⟩ := List.mem_flatMap.mp he
        have target : key y = key x := (keyed y e he).symm.trans (by simpa using same)
        exact numbered.1 (List.mem_map.mpr ⟨y, hy, target⟩)
      rw [here, rest, List.append_nil]
    · have first : (arcs y).filter (·.target == key x) = [] := by
        rw [List.filter_eq_nil_iff]
        intro e he same
        have target : key y = key x := (keyed y e he).symm.trans (by simpa using same)
        exact numbered.1 (target ▸ List.mem_map_of_mem later)
      rw [first, ih numbered.2 later, List.nil_append]

/-- The arcs that enter the node at a position are those that arrive there. -/
theorem entering_index {f s : Formula} {p : List Nat} (hs : f.sub? p = some s) :
    f.encode.entering (f.index p) = f.arrivalsAt .root rootId p := by
  rw [Graph.entering, edges_encode]
  exact filter_flatMap_of_target (nodup_map_index f) (fun _ _ => target_of_mem_arrivalsAt)
    ((mem_positions f p).mpr ⟨s, hs⟩)

/-- A node is entered from its parent, then from at most one argument before it, then from at most
one declaration. -/
theorem entering_encode {f t : Formula} {p : List Nat} {i : Nat}
    (ht : f.sub? (p ++ [i]) = some t) :
    ∃ previous binder : Option Nat, f.encode.entering (f.index (p ++ [i])) =
      ⟨f.index p, f.index (p ++ [i]), .ast⟩ ::
        (previous.toList.map (⟨·, f.index (p ++ [i]), .ncs⟩) ++
          binder.toList.map (⟨·, f.index (p ++ [i]), .ddg⟩)) := by
  obtain ⟨s, hs, ha⟩ := sub?_snoc_eq_some.mp ht
  have few := (distinct_scopeAt ht).length_binders_le_one t.label
  obtain ⟨binder, hb⟩ : ∃ binder : Option Nat,
      (f.scopeAt (p ++ [i])).binders t.label = binder.toList := by
    match (f.scopeAt (p ++ [i])).binders t.label, few with
    | [], _ => exact ⟨none, rfl⟩
    | [b], _ => exact ⟨some b, rfl⟩
  have parent : (f.placeAt .root rootId (p ++ [i])).parent = some (f.index p) := by
    rw [placeAt_snoc hs ha, rootId, Nat.zero_add]
    rfl
  refine ⟨(f.placeAt .root rootId (p ++ [i])).previous, binder, ?_⟩
  rw [entering_index ht, arrivalsAt_eq ht, Place.arrivals, parent, ← hb]
  rfl

/-! ## Arcs lead from smaller to larger ids -/

/-- A node comes before the nodes of its arguments. -/
theorem index_lt_index_append {f s : Formula} {p q : List Nat} (hs : f.sub? p = some s)
    (below : q ≠ []) : f.index p < f.index (p ++ q) := by
  cases q with
  | nil => exact absurd rfl below
  | cons i q =>
    rw [index_append hs, index]
    omega

/-- A declaration comes before what it binds. -/
theorem Binds.index_lt {f : Formula} {b v : List Nat} (h : f.Binds b v) :
    f.index b < f.index v := by
  obtain ⟨q, i, t, rfl, ht, inForce⟩ := h
  obtain ⟨s, j, w, hs, _, last, rfl⟩ := inForce.inBody
  obtain ⟨s', _, hs', _, early, _⟩ := inForce.declares
  obtain rfl := Option.some.inj (hs.symm.trans hs')
  have bound : j < s.args.length := by omega
  have before := index_arg_lt hs (show i < j by omega) bound
  have body := (sub?_snoc hs j).trans (List.getElem?_eq_getElem bound)
  have split : q ++ j :: w = q ++ [j] ++ w := by simp
  rw [split, index_append body]
  omega

theorem source_lt_target_encode {f : Formula} {e : Edge} (he : e ∈ f.encode.edges) :
    e.source < e.target := by
  obtain ⟨a, b, role⟩ := e
  cases role with
  | ast =>
    obtain ⟨p, i, t, ht, rfl, rfl⟩ := ast_mem_encode.mp he
    obtain ⟨s, hs, _⟩ := sub?_snoc_eq_some.mp ht
    exact index_lt_index_append hs (by simp)
  | ncs =>
    obtain ⟨p, i, s, hs, _, bound, rfl, rfl⟩ := ncs_mem_encode.mp he
    exact index_arg_lt hs (Nat.lt_succ_self i) bound
  | ddg =>
    obtain ⟨b, v, binds, rfl, rfl⟩ := ddg_mem_encode.mp he
    exact binds.index_lt

/-! ## The graph as a whole -/

theorem inPreOrder_encode (f : Formula) : f.encode.InPreOrder f where
  size := size_encode f
  numbered := by rw [map_index_positions, size_encode]
  node _ _ := node?_encode
  ast _ _ := ast_mem_encode
  ncs a b := by
    rw [ncs_mem_encode]
    simp only [Layout.ofLabel_eq_chained_iff_notMem]
  once := nodup_edges_encode f
  sorted := pairwise_target_encode f
  entering _ _ _ := entering_encode
  forward _ := source_lt_target_encode

theorem startingNodes_encode (f : Formula) :
    f.encode.startingNodes = [⟨rootId, .ofLabel f.label, f.label⟩] :=
  Graph.startingNode_eq_ok.mp (startingNode_encode f)

/-- The arguments of an ordinary application are one path of `ncs` arcs. -/
theorem chainOf_encode_of_chained {f s : Formula} {p : List Nat} (hs : f.sub? p = some s)
    (layout : Layout.ofLabel s.label = .chained) :
    (f.encode.chainOf (f.index p)).Perm (chainArcs (f.encode.children (f.index p))) := by
  have path := argumentArcs_encode_of_chained hs layout (children_encode hs)
  have chain := path.filter (·.role == .ncs)
  rwa [← chainOf_eq, filter_ncs_chainArcs] at chain

/-- The graph of a formula is laid out in pre-order, from the root with id 0. It has no cycle, only
the root is entered by no arc, and the arguments of every ordinary application are linked by one
path of `ncs` arcs. -/
theorem encode_inPreOrder (f : Formula) :
    f.encode.InPreOrder f ∧ f.index [] = rootId ∧ rootId = 0 ∧
      (∀ v, ¬ Relation.TransGen f.encode.Linked v v) ∧
      f.encode.startingNodes = [⟨0, .ofLabel f.label, f.label⟩] ∧
      ∀ p s, f.sub? p = some s → s.label ∉ unchainedLabels →
        (f.encode.children (f.index p)).Nodup ∧
          (f.encode.chainOf (f.index p)).Perm (chainArcs (f.encode.children (f.index p))) := by
  have layout := inPreOrder_encode f
  refine ⟨layout, index_nil f, rfl, Graph.not_transGen_linked layout.forward,
    startingNodes_encode f, fun p s hs ordinary => ⟨nodup_children_encode hs, ?_⟩⟩
  exact chainOf_encode_of_chained hs (Layout.ofLabel_eq_chained_iff_notMem.mpr ordinary)

end Formula

end FolGraph
