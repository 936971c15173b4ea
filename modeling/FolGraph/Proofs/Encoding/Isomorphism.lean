import FolGraph.Proofs.Encoding.Binding
import FolGraph.Proofs.Formula.Rearrangement
import FolGraph.Proofs.Graph.Renumbering

/-!
# Isomorphic encodings

Formulas that are equal up to the order of operands have isomorphic graphs. A rearrangement of the
positions keeps arguments, chains and bindings: quantifiers and ordinary applications keep the order
of their arguments, and what is said of all quantifiers in between is carried back by the
rearrangement turned round. `exists_isomorphism` reads the bijection of the nodes off it.
-/

namespace FolGraph.Formula

section
variable {f g : Formula} {π ρ : List Nat → List Nat}

/-! ## Binding -/

theorem Rearranges.fixed_arg (h : f.Rearranges g π) {s : Formula} {p : List Nat} {i : Nat}
    (hs : f.sub? p = some s) (ordered : isUnordered s.label = false) (hi : i < s.args.length) :
    π (p ++ [i]) = π p ++ [i] := by
  obtain ⟨j, moved, same⟩ := h.arg p s i hs hi
  rw [moved, same ordered]

/-- What lies below a position lies below its image. -/
theorem Rearranges.exists_append (h : f.Rearranges g π) {p w : List Nat} {t : Formula}
    (ht : f.sub? (p ++ w) = some t) : ∃ w', π (p ++ w) = π p ++ w' := by
  induction w using List.reverseRecOn generalizing t with
  | nil => exact ⟨[], by rw [List.append_nil, List.append_nil]⟩
  | append_singleton w i ih =>
    rw [← List.append_assoc] at ht ⊢
    obtain ⟨s, hs, ha⟩ := sub?_snoc_eq_some.mp ht
    obtain ⟨w', below⟩ := ih hs
    obtain ⟨j, moved, _⟩ := h.arg _ s i hs (List.getElem?_eq_some_iff.mp ha).1
    exact ⟨w' ++ [j], by rw [moved, below, List.append_assoc]⟩

/-- What lies in an argument of a quantifier lies in the same argument of its image. -/
theorem Rearranges.exists_below_quantifier (h : f.Rearranges g π) {s t : Formula}
    {q w : List Nat} {i : Nat} (hs : f.sub? q = some s) (kind : isQuantifier s.label = true)
    (hi : i < s.args.length) (ht : f.sub? (q ++ i :: w) = some t) :
    ∃ w', π (q ++ i :: w) = π q ++ i :: w' := by
  rw [← List.singleton_append, ← List.append_assoc] at ht ⊢
  obtain ⟨w', below⟩ := h.exists_append ht
  refine ⟨w', ?_⟩
  rw [below, h.fixed_arg hs (isUnordered_eq_false_of_isQuantifier kind) hi, List.append_assoc,
    List.singleton_append]

theorem Rearranges.declares (h : f.Rearranges g π) {q : List Nat} {i : Nat} {name : String}
    (declares : f.Declares q i name) : g.Declares (π q) i name ∧ π (q ++ [i]) = π q ++ [i] := by
  obtain ⟨s, d, hs, kind, early, hd, rfl⟩ := declares
  have moved := h.fixed_arg hs (isUnordered_eq_false_of_isQuantifier kind)
    (Nat.lt_of_succ_lt early)
  obtain ⟨t, ht, label, length⟩ := h.node q s hs
  obtain ⟨e, he, label', _⟩ := h.node (q ++ [i]) d ((sub?_snoc hs i).trans hd)
  rw [moved, sub?_snoc ht] at he
  exact ⟨⟨t, e, ht, by rwa [label], by rwa [length], he, label'⟩, moved⟩

theorem Rearranges.inBody (h : f.Rearranges g π) {q v : List Nat} {t : Formula}
    (ht : f.sub? v = some t) (inBody : f.InBody q v) : g.InBody (π q) (π v) := by
  obtain ⟨s, j, w, hs, kind, last, rfl⟩ := inBody
  obtain ⟨s', hs', label, length⟩ := h.node q s hs
  obtain ⟨w', below⟩ := h.exists_below_quantifier hs kind (by omega) ht
  exact ⟨s', j, w', hs', by rwa [label], by rwa [length], below⟩

theorem Rearranges.inDeclaration (h : f.Rearranges g π) {q v : List Nat} {t : Formula}
    (ht : f.sub? v = some t) (inside : f.InDeclaration q v) : g.InDeclaration (π q) (π v) := by
  obtain ⟨i, w, name, declares, rfl⟩ := inside
  have ⟨s, _, hs, kind, early, _⟩ := declares
  obtain ⟨w', below⟩ := h.exists_below_quantifier hs kind (Nat.lt_of_succ_lt early) ht
  exact ⟨i, w', name, (h.declares declares).1, below⟩

theorem InBody.sub? {q v : List Nat} (h : f.InBody q v) : ∃ s, f.sub? q = some s := by
  obtain ⟨s, _, _, hs, _⟩ := h
  exact ⟨s, hs⟩

theorem InDeclaration.sub? {q v : List Nat} (h : f.InDeclaration q v) :
    ∃ s, f.sub? q = some s := by
  obtain ⟨_, _, _, ⟨s, _, hs, _⟩, _⟩ := h
  exact ⟨s, hs⟩

/-- What is in force at a position is in force at its image: anything that hides or shuts it out
there would be carried back and do so at the position. -/
theorem Rearranges.inForce (h : f.Rearranges g π) (back : g.Rearranges f ρ)
    (left : ∀ p s, f.sub? p = some s → ρ (π p) = p) {q v : List Nat} {i : Nat} {name : String}
    {t : Formula} (ht : f.sub? v = some t) (inForce : f.InForce q i name v) :
    g.InForce (π q) i name (π v) := by
  obtain ⟨s, hs⟩ := inForce.inBody.sub?
  obtain ⟨t', ht', _⟩ := h.node v t ht
  have body : ∀ {r a}, g.sub? r = some a → g.InBody (π q) r → f.InBody q (ρ r) := by
    intro r a hr inside
    have carried := back.inBody hr inside
    rwa [left q s hs] at carried
  refine ⟨(h.declares inForce.declares).1, h.inBody ht inForce.inBody, ?_, ?_, ?_⟩
  · intro r inside declaration
    obtain ⟨a, hr⟩ := declaration.sub?
    have carried := back.inDeclaration ht' declaration
    rw [left v t ht] at carried
    exact inForce.exposed (ρ r) (body hr inside) carried
  · intro i' later declares
    have carried := (back.declares declares).1
    rw [left q s hs] at carried
    exact inForce.latest i' later carried
  · intro r inside around i' declares
    obtain ⟨a, hr⟩ := around.sub?
    have carried := back.inBody ht' around
    rw [left v t ht] at carried
    exact inForce.innermost (ρ r) (body hr inside) carried i' (back.declares declares).1

theorem Rearranges.binds (h : f.Rearranges g π) (back : g.Rearranges f ρ)
    (left : ∀ p s, f.sub? p = some s → ρ (π p) = p) {b v : List Nat} (binds : f.Binds b v) :
    g.Binds (π b) (π v) := by
  obtain ⟨q, i, s, rfl, hs, inForce⟩ := binds
  obtain ⟨t, ht, label, _⟩ := h.node v s hs
  refine ⟨π q, i, t, (h.declares inForce.declares).2, ht, ?_⟩
  rw [label]
  exact h.inForce back left hs inForce

/-! ## Arcs -/

/-- A rearrangement takes arcs to arcs of the same role. -/
theorem Rearranges.mem_edges (h : f.Rearranges g π) (back : g.Rearranges f ρ)
    (left : ∀ p s, f.sub? p = some s → ρ (π p) = p) {u v : List Nat} {s t : Formula} {role : Role}
    (hu : f.sub? u = some s) (hv : f.sub? v = some t)
    (he : ⟨f.index u, f.index v, role⟩ ∈ f.encode.edges) :
    ⟨g.index (π u), g.index (π v), role⟩ ∈ g.encode.edges := by
  obtain ⟨s', hu', _⟩ := h.node u s hu
  obtain ⟨t', hv', _⟩ := h.node v t hv
  cases role with
  | ast =>
    rw [ast_index_mem_encode_iff hu hv] at he
    rw [ast_index_mem_encode_iff hu' hv']
    obtain ⟨i, rfl⟩ := he
    obtain ⟨r, hr, ha⟩ := sub?_snoc_eq_some.mp hv
    obtain ⟨j, moved, _⟩ := h.arg u r i hr (List.getElem?_eq_some_iff.mp ha).1
    exact ⟨j, moved⟩
  | ncs =>
    rw [ncs_index_mem_encode_iff hu hv] at he
    rw [ncs_index_mem_encode_iff hu' hv']
    obtain ⟨p, i, r, hr, layout, bound, rfl, rfl⟩ := he
    obtain ⟨r', hr', label, length⟩ := h.node p r hr
    have ordered := (Layout.ofLabel_eq_chained_iff.mp layout).2
    exact ⟨π p, i, r', hr', by rwa [label], by rwa [length],
      h.fixed_arg hr ordered (Nat.lt_of_succ_lt bound), h.fixed_arg hr ordered bound⟩
  | ddg =>
    rw [ddg_index_mem_encode_iff hu hv] at he
    rw [ddg_index_mem_encode_iff hu' hv']
    exact h.binds back left he

/-! ## Nodes -/

/-- A map of positions is a map of the nodes that carry their numbers. -/
theorem exists_renumbering (f g : Formula) (π : List Nat → List Nat) :
    ∃ σ : Nat → Nat, ∀ p s, f.sub? p = some s → σ (f.index p) = g.index (π p) := by
  have choice : ∀ k, ∃ m, ∀ p s, f.sub? p = some s → f.index p = k → m = g.index (π p) := by
    intro k
    by_cases inside : k < f.size
    · obtain ⟨q, t, ht, rfl⟩ := exists_index inside
      exact ⟨_, fun p s hs same => by rw [index_injective hs ht same]⟩
    · exact ⟨0, fun p s hs same => absurd (same ▸ index_lt hs) inside⟩
  choose σ hσ using choice
  exact ⟨σ, fun p s hs => hσ _ p s hs rfl⟩

section
variable {σ : Nat → Nat} (moves : ∀ p s, f.sub? p = some s → σ (f.index p) = g.index (π p))
include moves

theorem Rearranges.bijOn (h : f.Rearranges g π) :
    Set.BijOn σ {v | v < f.encode.size} {v | v < g.encode.size} := by
  simp only [size_encode]
  refine ⟨fun k hk => ?_, fun k hk l hl same => ?_, fun l hl => ?_⟩
  · obtain ⟨p, s, hs, rfl⟩ := exists_index hk
    obtain ⟨t, ht, _⟩ := h.node p s hs
    rw [moves p s hs]
    exact index_lt ht
  · obtain ⟨p, s, hs, rfl⟩ := exists_index hk
    obtain ⟨q, t, ht, rfl⟩ := exists_index hl
    obtain ⟨_, hs', _⟩ := h.node p s hs
    obtain ⟨_, ht', _⟩ := h.node q t ht
    rw [moves p s hs, moves q t ht] at same
    rw [h.injective p q s t hs ht (index_injective hs' ht' same)]
  · obtain ⟨r, t, ht, rfl⟩ := exists_index hl
    obtain ⟨p, s, hs, rfl⟩ := h.surjective r t ht
    exact ⟨f.index p, index_lt hs, moves p s hs⟩

theorem Rearranges.exists_node? (h : f.Rearranges g π) {v : Nat} {n : Node}
    (found : f.encode.node? v = some n) :
    ∃ m, g.encode.node? (σ v) = some m ∧ m.label = n.label ∧ m.kind = n.kind := by
  have bound := Graph.lt_size_of_node? found
  rw [size_encode] at bound
  obtain ⟨p, s, hs, rfl⟩ := exists_index bound
  obtain ⟨t, ht, label, _⟩ := h.node p s hs
  obtain rfl := Option.some.inj ((node?_encode hs).symm.trans found)
  refine ⟨_, by rw [moves p s hs, node?_encode ht], label, ?_⟩
  rw [label]

/-- The graphs of rearranged formulas are the same graph under new ids. -/
theorem Rearranges.renumbers (h : f.Rearranges g π) (back : g.Rearranges f ρ)
    (left : ∀ p s, f.sub? p = some s → ρ (π p) = p)
    (right : ∀ r t, g.sub? r = some t → π (ρ r) = r) :
    Graph.Renumbers σ f.encode g.encode where
  bijOn := h.bijOn moves
  label v n found := by
    obtain ⟨m, found', label, _⟩ := h.exists_node? moves found
    exact ⟨m, found', label⟩
  edges := by
    have once : (f.encode.edges.map (Edge.renumber σ)).Nodup := by
      refine (nodup_edges_encode f).map_on fun d hd e he => ?_
      exact Graph.renumber_injOn (h.bijOn moves).injOn ((sound_encode f).ends d hd)
        ((sound_encode f).ends e he)
    -- neither list has an arc twice, so it is enough that they have the same arcs
    rw [List.perm_ext_iff_of_nodup (nodup_edges_encode g) once]
    rintro ⟨a, b, role⟩
    rw [List.mem_map]
    constructor
    · intro he
      obtain ⟨r, r', t, t', ht, ht', _, source, target⟩ := ends_of_mem_encode he
      obtain rfl := source
      obtain rfl := target
      obtain ⟨s, hs, _⟩ := back.node r t ht
      obtain ⟨s', hs', _⟩ := back.node r' t' ht'
      refine ⟨_, back.mem_edges h right ht ht' he, ?_⟩
      rw [Edge.renumber, moves _ s hs, moves _ s' hs', right r t ht, right r' t' ht']
    · rintro ⟨⟨a', b', role⟩, he, same⟩
      obtain ⟨rfl, rfl, rfl⟩ := Edge.mk.inj same
      obtain ⟨p, q, s, t, hs, ht, _, source, target⟩ := ends_of_mem_encode he
      obtain rfl := source
      obtain rfl := target
      rw [moves p s hs, moves q t ht]
      exact h.mem_edges back left hs ht he

end

end

/-- A conjunction of two formulas in the body of a quantifier. -/
def bothBound (p q : Formula) : Formula := node "!" [leaf "X", node "&" [p, q]]

/-- Formulas that are equal up to the order of operands have isomorphic graphs: the nodes of one
are those of the other, with their labels and kinds and as many arcs of each role between any two
of them, and the roots correspond. -/
theorem exists_isomorphism {f g : Formula} (h : f.isEquivalent g = true) :
    ∃ σ : Nat → Nat, Set.BijOn σ {v | v < f.encode.size} {v | v < g.encode.size} ∧
      σ rootId = rootId ∧
      (∀ v n, f.encode.node? v = some n →
        ∃ m, g.encode.node? (σ v) = some m ∧ m.label = n.label ∧ m.kind = n.kind) ∧
      ∀ u v role, u < f.encode.size → v < f.encode.size →
        g.encode.edges.count ⟨σ u, σ v, role⟩ = f.encode.edges.count ⟨u, v, role⟩ := by
  obtain ⟨π, rearranges⟩ := ((isEquivalent_iff f g).mp h).exists_rearranges
  obtain ⟨ρ, back, left, right⟩ := rearranges.exists_inverse
  obtain ⟨σ, moves⟩ := exists_renumbering f g π
  have renumbers := rearranges.renumbers moves back left right
  refine ⟨σ, renumbers.bijOn, ?_, fun v n => rearranges.exists_node? moves, ?_⟩
  · have root := moves [] f (sub?_nil f)
    rwa [rearranges.root, index_nil, index_nil] at root
  · intro u v role hu hv
    exact renumbers.count_eq (e := ⟨u, v, role⟩) (sound_encode f) (Graph.hasEnds_iff.mpr ⟨hu, hv⟩)

/-- The operands of the conjunction change places, and the quantifier binds the same occurrences. -/
theorem exists_isomorphism_bothBound :
    (bothBound (node "p" [leaf "X"]) (leaf "X")).isEquivalent
        (bothBound (leaf "X") (node "p" [leaf "X"])) = true ∧
      ∃ σ : Nat → Nat, Set.BijOn σ {v | v < 6} {v | v < 6} ∧ σ 0 = 0 ∧
        (bothBound (leaf "X") (node "p" [leaf "X"])).encode.edges.count ⟨σ 1, σ 4, .ddg⟩ = 1 ∧
        (bothBound (leaf "X") (node "p" [leaf "X"])).encode.edges.count ⟨σ 1, σ 5, .ddg⟩ = 1 := by
  have equivalent : (bothBound (node "p" [leaf "X"]) (leaf "X")).isEquivalent
      (bothBound (leaf "X") (node "p" [leaf "X"])) = true := by decide
  obtain ⟨σ, bijOn, root, _, arcs⟩ := exists_isomorphism equivalent
  exact ⟨equivalent, σ, bijOn, root, arcs 1 4 .ddg (by decide) (by decide),
    arcs 1 5 .ddg (by decide) (by decide)⟩

end FolGraph.Formula
