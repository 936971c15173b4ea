import FolGraph.Proofs.Encoding.Scope
import Mathlib.Data.List.Sort

/-!
# Encoded graphs

What the graph of a formula is made of: its nodes are the positions in pre-order, and its arcs are
those from a node to its arguments, from an argument of an ordinary application to the next one,
and from a declaration to what it binds. Every arc occurs once, and the arcs are sorted by target.
-/

namespace FolGraph

namespace Graph

theorem nodes_foldl_addNode (g : Graph) (labels : List String) :
    (labels.foldl .addNode g).nodes =
      g.nodes ++ (labels.zipIdx g.size).map fun li => ⟨li.2, .ofLabel li.1, li.1⟩ := by
  induction labels generalizing g with
  | nil => simp
  | cons l ls ih =>
    rw [List.foldl_cons, ih, addNode, nodes_insertNode, size_insertNode, List.zipIdx_cons,
      List.map_cons, List.append_assoc, List.singleton_append]

theorem edges_foldl_addNode (g : Graph) (labels : List String) :
    (labels.foldl .addNode g).edges = g.edges := by
  induction labels generalizing g with
  | nil => rfl
  | cons l ls ih => rw [List.foldl_cons, ih, addNode, edges_insertNode]

theorem nodes_foldl_link (g : Graph) (es : List Edge) : (es.foldl .link g).nodes = g.nodes := by
  induction es generalizing g with
  | nil => rfl
  | cons e es ih => rw [List.foldl_cons, ih, nodes_link]

theorem edges_foldl_link (g : Graph) (es : List Edge) :
    (es.foldl .link g).edges = g.edges ++ es := by
  induction es generalizing g with
  | nil => simp
  | cons e es ih => rw [List.foldl_cons, ih, edges_link, List.append_assoc, List.singleton_append]

end Graph

theorem Place.mem_arrivals {place : Place} {id : Nat} {label : String} {e : Edge} :
    e ∈ place.arrivals id label ↔
      e.target = id ∧
        (e.role = .ast ∧ place.parent = some e.source ∨
          e.role = .ncs ∧ place.previous = some e.source ∨
          e.role = .ddg ∧ e.source ∈ place.scope.binders label) := by
  obtain ⟨s, t, r⟩ := e
  simp only [arrivals, List.mem_append, List.mem_map, Option.mem_toList,
    Edge.mk.injEq]
  constructor
  · rintro ((⟨a, h, rfl, rfl, rfl⟩ | ⟨a, h, rfl, rfl, rfl⟩) | ⟨a, h, rfl, rfl, rfl⟩)
    · exact ⟨rfl, Or.inl ⟨rfl, h⟩⟩
    · exact ⟨rfl, Or.inr (Or.inl ⟨rfl, h⟩)⟩
    · exact ⟨rfl, Or.inr (Or.inr ⟨rfl, h⟩)⟩
  · rintro ⟨rfl, ⟨rfl, h⟩ | ⟨rfl, h⟩ | ⟨rfl, h⟩⟩
    · exact Or.inl (Or.inl ⟨s, h, rfl, rfl, rfl⟩)
    · exact Or.inl (Or.inr ⟨s, h, rfl, rfl, rfl⟩)
    · exact Or.inr ⟨s, h, rfl, rfl, rfl⟩

theorem Place.nodup_arrivals {place : Place} {id : Nat} {label : String}
    (distinct : place.scope.Distinct) : (place.arrivals id label).Nodup := by
  have few : ∀ {xs : List Nat} (r : Role), xs.length ≤ 1 →
      (xs.map fun s => (⟨s, id, r⟩ : Edge)).Nodup := by
    intro xs r h
    match xs with
    | [] => exact List.nodup_nil
    | [x] => exact List.nodup_singleton _
  have toList : ∀ o : Option Nat, o.toList.length ≤ 1 := by
    intro o
    cases o <;> simp
  unfold arrivals
  rw [List.nodup_append', List.nodup_append']
  have binders := few .ddg (distinct.length_binders_le_one label)
  refine ⟨⟨few _ (toList _), few _ (toList _), ?_⟩, binders, ?_⟩
  · intro e he he'
    obtain ⟨_, _, rfl⟩ := List.mem_map.mp he
    simp at he'
  · intro e he he'
    obtain ⟨_, _, rfl⟩ := List.mem_map.mp he'
    simp at he

namespace Formula

theorem labelsAll_getElem? {fs : List Formula} {i k : Nat} {a : Formula}
    (ha : fs[i]? = some a) (hk : k < a.size) :
    (labelsAll fs)[sizeAll (fs.take i) + k]? = a.labels[k]? := by
  induction fs generalizing i with
  | nil => cases ha
  | cons f fs ih =>
    cases i with
    | zero =>
      obtain rfl := Option.some.inj ha
      rw [List.take_zero, sizeAll, Nat.zero_add, labelsAll, List.getElem?_append_left]
      rwa [length_labels]
    | succ i =>
      rw [List.take_succ_cons, sizeAll, labelsAll, Nat.add_assoc, ← length_labels f,
        List.getElem?_append_right (Nat.le_add_right _ _), Nat.add_sub_cancel_left]
      exact ih ha

/-- The labels in pre-order are the labels at the positions. -/
theorem labels_getElem? {f s : Formula} {p : List Nat} (hs : f.sub? p = some s) :
    f.labels[f.index p]? = some s.label := by
  induction p generalizing f with
  | nil =>
    obtain rfl := Option.some.inj ((sub?_nil f).symm.trans hs)
    cases f
    simp [labels]
  | cons i p ih =>
    obtain ⟨a, ha, below⟩ := sub?_cons_eq_some.mp hs
    rw [index_cons ha, ← ih below, Nat.add_assoc, Nat.add_comm 1]
    cases f
    exact labelsAll_getElem? ha (index_lt below)

theorem label_mem_labels {f s : Formula} {p : List Nat} (hs : f.sub? p = some s) :
    s.label ∈ f.labels := List.mem_of_getElem? (labels_getElem? hs)

theorem edges_encode (f : Formula) :
    f.encode.edges = f.positions.flatMap (f.arrivalsAt .root rootId) := by
  rw [encode, Graph.edges_foldl_link, Graph.edges_foldl_addNode, arcs_eq_flatMap]
  rfl

theorem nodes_encode (f : Formula) :
    f.encode.nodes = f.labels.zipIdx.map fun li => ⟨li.2, .ofLabel li.1, li.1⟩ := by
  rw [encode, Graph.nodes_foldl_link, Graph.nodes_foldl_addNode]
  rfl

theorem size_encode (f : Formula) : f.encode.size = f.size := by
  rw [Graph.size, nodes_encode, List.length_map, List.length_zipIdx, length_labels]

theorem node?_encode {f s : Formula} {p : List Nat} (hs : f.sub? p = some s) :
    f.encode.node? (f.index p) = some ⟨f.index p, .ofLabel s.label, s.label⟩ := by
  rw [Graph.node?, nodes_encode, List.getElem?_map, List.getElem?_zipIdx, labels_getElem? hs]
  simp

theorem arrivalsAt_eq {f s : Formula} {p : List Nat} (hs : f.sub? p = some s) :
    f.arrivalsAt .root rootId p = (f.placeAt .root rootId p).arrivals (f.index p) s.label := by
  rw [arrivalsAt, labelAt_eq hs, rootId, Nat.zero_add]

theorem mem_edges_encode {f : Formula} {e : Edge} :
    e ∈ f.encode.edges ↔
      ∃ p s, f.sub? p = some s ∧
        e ∈ (f.placeAt .root rootId p).arrivals (f.index p) s.label := by
  rw [edges_encode, List.mem_flatMap]
  constructor
  · rintro ⟨p, hp, he⟩
    obtain ⟨s, hs⟩ := (mem_positions f p).mp hp
    exact ⟨p, s, hs, by rwa [← arrivalsAt_eq hs]⟩
  · rintro ⟨p, s, hs, he⟩
    exact ⟨p, (mem_positions f p).mpr ⟨s, hs⟩, by rwa [arrivalsAt_eq hs]⟩

/-- The `ast` arcs run from a node to each of its arguments. -/
theorem ast_mem_encode {f : Formula} {a b : Nat} :
    ⟨a, b, .ast⟩ ∈ f.encode.edges ↔
      ∃ p i t, f.sub? (p ++ [i]) = some t ∧ a = f.index p ∧ b = f.index (p ++ [i]) := by
  rw [mem_edges_encode]
  simp only [Place.mem_arrivals, reduceCtorEq, false_and, or_false, true_and]
  constructor
  · rintro ⟨p, t, ht, rfl, parent⟩
    rcases p.eq_nil_or_concat' with rfl | ⟨p, i, rfl⟩
    · simp [placeAt, Place.root] at parent
    · obtain ⟨s, hs, ha⟩ := sub?_snoc_eq_some.mp ht
      rw [placeAt_snoc hs ha, rootId, Nat.zero_add] at parent
      exact ⟨p, i, t, ht, (Option.some.inj parent).symm, rfl⟩
  · rintro ⟨p, i, t, ht, rfl, rfl⟩
    obtain ⟨s, hs, ha⟩ := sub?_snoc_eq_some.mp ht
    refine ⟨p ++ [i], t, ht, rfl, ?_⟩
    rw [placeAt_snoc hs ha, rootId, Nat.zero_add]
    rfl

/-- The `ncs` arcs run from each argument of an ordinary application to the next one. -/
theorem ncs_mem_encode {f : Formula} {a b : Nat} :
    ⟨a, b, .ncs⟩ ∈ f.encode.edges ↔
      ∃ p i s, f.sub? p = some s ∧ Layout.ofLabel s.label = .chained ∧ i + 1 < s.args.length ∧
        a = f.index (p ++ [i]) ∧ b = f.index (p ++ [i + 1]) := by
  rw [mem_edges_encode]
  simp only [Place.mem_arrivals, reduceCtorEq, false_and, or_false, false_or, true_and]
  constructor
  · rintro ⟨p, t, ht, rfl, previous⟩
    rcases p.eq_nil_or_concat' with rfl | ⟨p, k, rfl⟩
    · simp [placeAt, Place.root] at previous
    · obtain ⟨s, hs, ha⟩ := sub?_snoc_eq_some.mp ht
      have bound := (List.getElem?_eq_some_iff.mp ha).1
      rw [placeAt_snoc hs ha, rootId, Nat.zero_add] at previous
      simp only [argPlace, previousArg] at previous
      split at previous
      case h_2 => cases previous
      case h_1 layout =>
        cases k with
        | zero => cases previous
        | succ i =>
          refine ⟨p, i, s, hs, layout, bound, ?_, rfl⟩
          rw [index_append hs]
          exact (Option.some.inj previous).symm
  · rintro ⟨p, i, s, hs, layout, bound, rfl, rfl⟩
    have ha := List.getElem?_eq_getElem bound
    refine ⟨p ++ [i + 1], s.args[i + 1], (sub?_snoc hs _).trans ha, rfl, ?_⟩
    rw [placeAt_snoc hs ha, rootId, Nat.zero_add]
    simp only [argPlace, previousArg, layout]
    rw [index_append hs]
    rfl

theorem Binds.positions {f : Formula} {b v : List Nat} (h : f.Binds b v) :
    ∃ s t, f.sub? b = some s ∧ f.sub? v = some t := by
  obtain ⟨q, i, t, rfl, ht, inForce⟩ := h
  obtain ⟨s, d, hs, _, _, hd, _⟩ := inForce.declares
  exact ⟨d, t, (sub?_snoc hs i).trans hd, ht⟩

/-- The `ddg` arcs run from each declaration to what it binds. -/
theorem ddg_mem_encode {f : Formula} {a b : Nat} :
    ⟨a, b, .ddg⟩ ∈ f.encode.edges ↔ ∃ p v, f.Binds p v ∧ a = f.index p ∧ b = f.index v := by
  rw [mem_edges_encode]
  simp only [Place.mem_arrivals, reduceCtorEq, false_and, false_or, true_and]
  constructor
  · rintro ⟨v, s, hs, rfl, binder⟩
    obtain ⟨p, binds, rfl⟩ := (mem_binders_scopeAt_iff hs).mp binder
    exact ⟨p, v, binds, rfl, rfl⟩
  · rintro ⟨p, v, binds, rfl, rfl⟩
    obtain ⟨_, s, _, hs⟩ := binds.positions
    exact ⟨v, s, hs, rfl, (mem_binders_scopeAt_iff hs).mpr ⟨p, binds, rfl⟩⟩

section
variable {f s t : Formula} {u v : List Nat}

/-- Between two positions an arc says how they stand to each other. -/
theorem ast_index_mem_encode_iff (hu : f.sub? u = some s) (hv : f.sub? v = some t) :
    ⟨f.index u, f.index v, .ast⟩ ∈ f.encode.edges ↔ ∃ i, v = u ++ [i] := by
  rw [ast_mem_encode]
  constructor
  · rintro ⟨p, i, a, ha, source, target⟩
    obtain ⟨_, hp, _⟩ := sub?_snoc_eq_some.mp ha
    obtain rfl := index_injective hu hp source
    exact ⟨i, index_injective hv ha target⟩
  · rintro ⟨i, rfl⟩
    exact ⟨u, i, t, hv, rfl, rfl⟩

theorem ncs_index_mem_encode_iff (hu : f.sub? u = some s) (hv : f.sub? v = some t) :
    ⟨f.index u, f.index v, .ncs⟩ ∈ f.encode.edges ↔
      ∃ p i r, f.sub? p = some r ∧ Layout.ofLabel r.label = .chained ∧ i + 1 < r.args.length ∧
        u = p ++ [i] ∧ v = p ++ [i + 1] := by
  rw [ncs_mem_encode]
  constructor
  · rintro ⟨p, i, r, hr, layout, bound, source, target⟩
    have hi := (sub?_snoc hr i).trans (List.getElem?_eq_getElem (by omega))
    have hi' := (sub?_snoc hr (i + 1)).trans (List.getElem?_eq_getElem bound)
    exact ⟨p, i, r, hr, layout, bound, index_injective hu hi source,
      index_injective hv hi' target⟩
  · rintro ⟨p, i, r, hr, layout, bound, rfl, rfl⟩
    exact ⟨p, i, r, hr, layout, bound, rfl, rfl⟩

theorem ddg_index_mem_encode_iff (hu : f.sub? u = some s) (hv : f.sub? v = some t) :
    ⟨f.index u, f.index v, .ddg⟩ ∈ f.encode.edges ↔ f.Binds u v := by
  rw [ddg_mem_encode]
  constructor
  · rintro ⟨c, w, binds, source, target⟩
    obtain ⟨_, _, hc, hw⟩ := binds.positions
    rwa [index_injective hu hc source, index_injective hv hw target]
  · exact fun binds => ⟨u, v, binds, rfl, rfl⟩

end

theorem Binds.ne_nil {f : Formula} {b v : List Nat} (h : f.Binds b v) : v ≠ [] := by
  obtain ⟨q, i, t, _, _, inForce⟩ := h
  rintro rfl
  exact Nat.not_lt_zero _ inForce.inBody.length_lt

/-- An arc of the graph of a formula runs between two positions and does not enter the root. -/
theorem ends_of_mem_encode {f : Formula} {e : Edge} (he : e ∈ f.encode.edges) :
    ∃ p q s t, f.sub? p = some s ∧ f.sub? q = some t ∧ q ≠ [] ∧ e.source = f.index p ∧
      e.target = f.index q := by
  obtain ⟨a, b, role⟩ := e
  cases role with
  | ast =>
    obtain ⟨p, i, t, ht, rfl, rfl⟩ := ast_mem_encode.mp he
    obtain ⟨s, hs, _⟩ := sub?_snoc_eq_some.mp ht
    exact ⟨p, p ++ [i], s, t, hs, ht, by simp, rfl, rfl⟩
  | ncs =>
    obtain ⟨p, i, s, hs, _, bound, rfl, rfl⟩ := ncs_mem_encode.mp he
    exact ⟨p ++ [i], p ++ [i + 1], _, _,
      (sub?_snoc hs i).trans (List.getElem?_eq_getElem (by omega)),
      (sub?_snoc hs (i + 1)).trans (List.getElem?_eq_getElem bound), by simp, rfl, rfl⟩
  | ddg =>
    obtain ⟨p, v, binds, rfl, rfl⟩ := ddg_mem_encode.mp he
    obtain ⟨s, t, hs, ht⟩ := binds.positions
    exact ⟨p, v, s, t, hs, ht, binds.ne_nil, rfl, rfl⟩

theorem built_encode (f : Formula) : f.encode.Built := by
  have nodes := Graph.Built.empty.foldl_addNode f.labels
  refine nodes.foldl_link fun e he => ?_
  have member : e ∈ f.encode.edges := by
    rw [edges_encode, ← arcs_eq_flatMap]
    exact he
  obtain ⟨p, q, s, t, hs, ht, _, source, target⟩ := ends_of_mem_encode member
  have size : (f.labels.foldl .addNode .empty : Graph).size = f.size := by
    rw [← size_encode, Graph.size, Graph.size, encode, Graph.nodes_foldl_link]
  rw [Graph.hasEnds_iff, size, source, target]
  exact ⟨index_lt hs, index_lt ht⟩

theorem sound_encode (f : Formula) : f.encode.Sound := (built_encode f).sound

theorem pairwise_index_positions (f : Formula) :
    f.positions.Pairwise fun p q => f.index p < f.index q := by
  rw [← List.pairwise_map, map_index_positions]
  exact List.pairwise_lt_range

theorem target_of_mem_arrivalsAt {f : Formula} {p : List Nat} {e : Edge}
    (he : e ∈ f.arrivalsAt .root rootId p) : e.target = f.index p := by
  rw [arrivalsAt, rootId, Nat.zero_add] at he
  exact (Place.mem_arrivals.mp he).1

/-- The arcs of the graph of a formula are sorted by the node they enter. -/
theorem pairwise_target_encode (f : Formula) :
    f.encode.edges.Pairwise fun d e => d.target ≤ e.target := by
  rw [edges_encode, List.pairwise_flatMap]
  constructor
  · intro p _
    rw [List.pairwise_iff_forall_sublist]
    intro d e sublist
    have hd := target_of_mem_arrivalsAt (sublist.subset List.mem_cons_self)
    have he := target_of_mem_arrivalsAt
      (sublist.subset (List.mem_cons_of_mem d List.mem_cons_self))
    exact Nat.le_of_eq (hd.trans he.symm)
  · refine (pairwise_index_positions f).imp fun lt d hd e he => ?_
    rw [target_of_mem_arrivalsAt hd, target_of_mem_arrivalsAt he]
    exact Nat.le_of_lt lt

/-- No arc of the graph of a formula occurs twice. -/
theorem nodup_edges_encode (f : Formula) : f.encode.edges.Nodup := by
  rw [edges_encode, List.nodup_flatMap]
  constructor
  · intro p hp
    obtain ⟨s, hs⟩ := (mem_positions f p).mp hp
    exact Place.nodup_arrivals (distinct_scopeAt hs)
  · refine (pairwise_index_positions f).imp fun lt e he he' => ?_
    have same := (target_of_mem_arrivalsAt he).symm.trans (target_of_mem_arrivalsAt he')
    omega

theorem increasing_args {f s : Formula} {p : List Nat} (hs : f.sub? p = some s) :
    ((List.range s.args.length).map fun i => f.index (p ++ [i])).Pairwise (· < ·) := by
  rw [List.pairwise_map]
  exact List.pairwise_lt_range.imp_of_mem fun _ hj lt =>
    index_arg_lt hs lt (List.mem_range.mp hj)

/-- The arguments of a node of the graph are those of the formula, in their order. -/
theorem children_encode {f s : Formula} {p : List Nat} (hs : f.sub? p = some s) :
    f.encode.children (f.index p) =
      (List.range s.args.length).map fun i => f.index (p ++ [i]) := by
  have increasing := increasing_args hs
  have sorted : (f.encode.children (f.index p)).Pairwise (· ≤ ·) := by
    rw [(sound_encode f).children_eq, List.pairwise_map]
    exact (pairwise_target_encode f).filter _
  have nodup : (f.encode.children (f.index p)).Nodup := by
    rw [(sound_encode f).children_eq]
    refine ((nodup_edges_encode f).filter _).map_on fun d hd e he target => ?_
    simp only [List.mem_filter, Bool.and_eq_true, beq_iff_eq] at hd he
    cases d
    cases e
    simp_all
  refine List.Perm.eq_of_pairwise (fun _ _ _ _ => Nat.le_antisymm) sorted
    (increasing.imp Nat.le_of_lt) ?_
  rw [List.perm_ext_iff_of_nodup nodup (increasing.imp Nat.ne_of_lt)]
  intro b
  rw [(sound_encode f).mem_children, ast_mem_encode, List.mem_map]
  constructor
  · rintro ⟨q, i, t, ht, same, rfl⟩
    obtain ⟨s', hs', ha⟩ := sub?_snoc_eq_some.mp ht
    obtain rfl := index_injective hs hs' same
    obtain rfl := Option.some.inj (hs.symm.trans hs')
    exact ⟨i, List.mem_range.mpr (List.getElem?_eq_some_iff.mp ha).1, rfl⟩
  · rintro ⟨i, hi, rfl⟩
    have ha := List.getElem?_eq_getElem (List.mem_range.mp hi)
    exact ⟨p, i, _, (sub?_snoc hs i).trans ha, rfl, rfl⟩

theorem nodup_children_encode {f s : Formula} {p : List Nat} (hs : f.sub? p = some s) :
    (f.encode.children (f.index p)).Nodup := by
  rw [children_encode hs]
  exact (increasing_args hs).imp Nat.ne_of_lt

end Formula

end FolGraph
