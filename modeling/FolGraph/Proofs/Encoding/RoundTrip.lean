import FolGraph.Proofs.Encoding.Encoded
import FolGraph.Proofs.Graph.Spelling

/-!
# Round trip

The graph of a formula is read back as that formula. Between the arguments of one node there run
the `ncs` arcs of their chain or no arcs at all, apart from `ddg` arcs into the body of a
quantifier, which say nothing about the order. So every position is spelled by its node.
-/

namespace FolGraph.Formula

open FolGraph.Graph (chainArcs mem_chainArcs)

/-- A declaration that binds an argument of the same node binds the body of a quantifier. -/
theorem Binds.of_siblings {f s : Formula} {p : List Nat} (hs : f.sub? p = some s) {i j : Nat}
    (h : f.Binds (p ++ [i]) (p ++ [j])) :
    isQuantifier s.label = true ∧ i + 1 < s.args.length ∧ j + 1 = s.args.length := by
  obtain ⟨q, k, t, same, _, inForce⟩ := h
  obtain ⟨rfl, rfl⟩ := List.append_singleton_inj.mp same
  obtain ⟨s', _, hs', _, early, _⟩ := inForce.declares
  obtain rfl := Option.some.inj (hs.symm.trans hs')
  rcases (inBody_snoc_iff hs).mp inForce.inBody with inside | ⟨_, kind, last⟩
  · exact absurd inside.length_lt (Nat.lt_irrefl _)
  · exact ⟨kind, early, last⟩

/-- An arc between two arguments of a node links an argument of an ordinary application to the
next one, or a declaration to the body that it binds. -/
theorem arc_between_args {f s : Formula} {p : List Nat} (hs : f.sub? p = some s) {i j : Nat}
    {role : Role} (hi : i < s.args.length) (hj : j < s.args.length)
    (he : ⟨f.index (p ++ [i]), f.index (p ++ [j]), role⟩ ∈ f.encode.edges) :
    (role = .ncs ∧ Layout.ofLabel s.label = .chained ∧ j = i + 1) ∨
      (role = .ddg ∧ isQuantifier s.label = true ∧ i + 1 < s.args.length ∧
        j + 1 = s.args.length) := by
  have argument : ∀ {k}, k < s.args.length → ∃ t, f.sub? (p ++ [k]) = some t :=
    fun hk => ⟨_, (sub?_snoc hs _).trans (List.getElem?_eq_getElem hk)⟩
  obtain ⟨a, ha⟩ := argument hi
  obtain ⟨b, hb⟩ := argument hj
  cases role with
  | ast =>
    obtain ⟨k, same⟩ := (ast_index_mem_encode_iff ha hb).mp he
    simpa using congrArg List.length same
  | ncs =>
    obtain ⟨q, k, r, hr, layout, _, same, same'⟩ := (ncs_index_mem_encode_iff ha hb).mp he
    obtain ⟨rfl, rfl⟩ := List.append_singleton_inj.mp same
    obtain ⟨_, rfl⟩ := List.append_singleton_inj.mp same'
    obtain rfl := Option.some.inj (hs.symm.trans hr)
    exact Or.inl ⟨rfl, layout, rfl⟩
  | ddg =>
    have binds := (ddg_index_mem_encode_iff ha hb).mp he
    exact Or.inr ⟨rfl, binds.of_siblings hs⟩

theorem mem_chainArcs_map_range {nodeOf : Nat → Nat} {n : Nat} {e : Edge} :
    e ∈ chainArcs ((List.range n).map nodeOf) ↔
      ∃ i, i + 1 < n ∧ e = ⟨nodeOf i, nodeOf (i + 1), .ncs⟩ := by
  have member : ∀ {k x}, ((List.range n).map nodeOf)[k]? = some x ↔ k < n ∧ nodeOf k = x := by
    intro k x
    by_cases h : k < n <;> simp [h]
  obtain ⟨a, b, role⟩ := e
  rw [mem_chainArcs]
  simp only [member, Edge.mk.injEq]
  constructor
  · rintro ⟨i, ⟨_, rfl⟩, ⟨bound, rfl⟩, rfl⟩
    exact ⟨i, bound, rfl, rfl, rfl⟩
  · rintro ⟨i, bound, rfl, rfl, rfl⟩
    exact ⟨i, ⟨by omega, rfl⟩, ⟨bound, rfl⟩, rfl⟩

/-- The arguments of an ordinary application are linked by the arcs of their chain. -/
theorem argumentArcs_encode_of_chained {f s : Formula} {p : List Nat} (hs : f.sub? p = some s)
    (layout : Layout.ofLabel s.label = .chained) {kids : List Nat}
    (hk : kids = (List.range s.args.length).map fun i => f.index (p ++ [i])) :
    (f.encode.argumentArcs s.label kids).Perm (chainArcs kids) := by
  have distinct : kids.Nodup := hk ▸ (increasing_args hs).imp Nat.ne_of_lt
  have kind := (Layout.ofLabel_eq_chained_iff.mp layout).1
  have once : (f.encode.argumentArcs s.label kids).Nodup := (nodup_edges_encode f).filter _
  rw [List.perm_ext_iff_of_nodup once (Graph.nodup_chainArcs distinct)]
  intro e
  rw [Graph.mem_argumentArcs]
  subst hk
  rw [mem_chainArcs_map_range]
  constructor
  · rintro ⟨he, source, target, _⟩
    obtain ⟨i, hi, source⟩ := List.mem_map.mp source
    obtain ⟨j, hj, target⟩ := List.mem_map.mp target
    obtain ⟨a, b, role⟩ := e
    obtain rfl := source
    obtain rfl := target
    rw [List.mem_range] at hi hj
    rcases arc_between_args hs hi hj he with ⟨rfl, _, rfl⟩ | ⟨_, quantifier, _⟩
    · exact ⟨i, hj, rfl⟩
    · rw [kind] at quantifier
      cases quantifier
  · rintro ⟨i, bound, rfl⟩
    have member : ∀ {k}, k < s.args.length →
        f.index (p ++ [k]) ∈ (List.range s.args.length).map fun i => f.index (p ++ [i]) :=
      fun hk => List.mem_map.mpr ⟨_, List.mem_range.mpr hk, rfl⟩
    refine ⟨ncs_mem_encode.mpr ⟨p, i, s, hs, layout, bound, rfl, rfl⟩, ?_, ?_, ?_⟩
    · exact member (by omega)
    · exact member bound
    · simp [Graph.entersBody]

/-- No arc bears on the order of the other arguments: what runs between them binds a body. -/
theorem argumentArcs_encode_of_not_chained {f s : Formula} {p : List Nat}
    (hs : f.sub? p = some s) (layout : Layout.ofLabel s.label ≠ .chained) {kids : List Nat}
    (hk : kids = (List.range s.args.length).map fun i => f.index (p ++ [i])) :
    f.encode.argumentArcs s.label kids = [] := by
  rw [List.eq_nil_iff_forall_not_mem]
  intro e member
  obtain ⟨he, source, target, kept⟩ := Graph.mem_argumentArcs.mp member
  clear member
  subst hk
  obtain ⟨i, hi, source⟩ := List.mem_map.mp source
  obtain ⟨j, hj, target⟩ := List.mem_map.mp target
  obtain ⟨a, b, role⟩ := e
  obtain rfl := source
  obtain rfl := target
  rw [List.mem_range] at hi hj
  rcases arc_between_args hs hi hj he with ⟨_, chained, _⟩ | ⟨rfl, kind, early, last⟩
  · exact layout chained
  · have apart := index_arg_lt hs (show i < j by omega) hj
    obtain ⟨n, length⟩ : ∃ n, s.args.length = n + 1 := ⟨j, last.symm⟩
    obtain rfl : j = n := by omega
    simp only [Graph.entersBody, kind, length, List.range_succ, List.map_append, List.map_cons,
      List.map_nil, List.getLast?_concat, Bool.and_eq_false_iff] at kept
    simp at kept
    omega

/-- The arguments of a node of the graph are put in the order that they have in the formula. -/
theorem arguments_encode {f s : Formula} {p : List Nat} (hs : f.sub? p = some s) :
    f.encode.arguments ⟨f.index p, .ofLabel s.label, s.label⟩ =
      .ok ((List.range s.args.length).map fun i => f.index (p ++ [i])) := by
  rw [Graph.arguments_eq_ok, children_encode hs]
  generalize hk : ((List.range s.args.length).map fun i => f.index (p ++ [i])) = kids
  by_cases few : kids.length < 2
  · exact Graph.orderSiblings?_of_length_lt_two few
  · have distinct : kids.Nodup := hk ▸ (increasing_args hs).imp Nat.ne_of_lt
    rw [Graph.orderSiblings?_eq_some_iff (sound_encode f) distinct (by omega)]
    by_cases layout : Layout.ofLabel s.label = .chained
    · exact Or.inr ⟨List.Perm.refl _, argumentArcs_encode_of_chained hs layout hk.symm⟩
    · exact Or.inl ⟨argumentArcs_encode_of_not_chained hs layout hk.symm, rfl⟩

mutual

/-- Every position is spelled by its node, and the nodes read for it are numbered in a row. -/
theorem spells_encode (f : Formula) : (s : Formula) → {p : List Nat} → f.sub? p = some s →
    f.encode.Spells (f.index p) s (List.range' (f.index p) s.size)
  | .node label args, p, hs => by
    have rest := spellsAll_encode f hs 0 args rfl
    rw [← List.range_eq_range', index_append hs, index_singleton, List.take_zero, sizeAll] at rest
    rw [size, Nat.add_comm 1, List.range'_succ]
    exact .node (node?_encode hs) (arguments_encode hs) rest

theorem spellsAll_encode (f : Formula) {s : Formula} {p : List Nat} (hs : f.sub? p = some s) :
    (k : Nat) → (fs : List Formula) → s.args.drop k = fs →
    f.encode.SpellsAll ((List.range' k fs.length).map fun i => f.index (p ++ [i])) fs
      (List.range' (f.index (p ++ [k])) (sizeAll fs))
  | _, [], _ => by
    simpa [sizeAll] using Graph.SpellsAll.nil
  | k, a :: fs, h => by
    have ha : s.args[k]? = some a := by
      rw [← List.head?_drop, h, List.head?_cons]
    have tail : s.args.drop (k + 1) = fs := by
      rw [← List.drop_drop, h, List.drop_one, List.tail_cons]
    have first := spells_encode f a ((sub?_snoc hs k).trans ha)
    have rest := spellsAll_encode f hs (k + 1) fs tail
    have next : f.index (p ++ [k + 1]) = f.index (p ++ [k]) + a.size := by
      rw [index_append hs, index_append hs, index_succ ha, Nat.add_assoc]
    rw [next] at rest
    rw [List.length_cons, List.range'_succ, List.map_cons, sizeAll, ← List.range'_append_1]
    exact .cons first rest

end

/-- Only the root of the graph of a formula is entered by no arc. -/
theorem unentered_encode_iff {f : Formula} {v : Nat} (hv : v < f.size) :
    f.encode.Unentered v ↔ v = rootId := by
  obtain ⟨p, s, hs, rfl⟩ := exists_index hv
  constructor
  · intro free
    rcases p.eq_nil_or_concat' with rfl | ⟨p, i, rfl⟩
    · exact index_nil f
    · exact absurd rfl (free _ (ast_mem_encode.mpr ⟨p, i, s, hs, rfl, rfl⟩))
  · intro root e he target
    obtain ⟨_, q, _, t, _, ht, entered, _, same⟩ := ends_of_mem_encode he
    have first : f.index q = f.index [] := by rw [← same, target, root, index_nil, rootId]
    exact entered (index_injective ht (sub?_nil f) first)

theorem startingNode_encode (f : Formula) :
    f.encode.startingNode = .ok ⟨rootId, .ofLabel f.label, f.label⟩ := by
  rw [Graph.startingNode_eq_ok_iff (sound_encode f), size_encode]
  refine ⟨?_, fun v hv => unentered_encode_iff hv⟩
  have root := node?_encode (sub?_nil f)
  rwa [index_nil] at root

/-- The starting node spells the formula and all nodes are read for it. -/
theorem exists_spells_encode (f : Formula) :
    ∃ root ids, f.encode.startingNode = .ok root ∧ f.encode.Spells root.id f ids ∧
      ids.Perm (List.range f.encode.size) := by
  have spells := spells_encode f f (sub?_nil f)
  rw [index_nil, ← List.range_eq_range'] at spells
  refine ⟨_, List.range f.size, startingNode_encode f, spells, ?_⟩
  rw [size_encode]

/-- Decoding the graph of a formula returns the formula itself. -/
theorem decode_encode (f : Formula) : f.encode.decode false = .ok f :=
  (Graph.decode_eq_ok_iff (sound_encode f)).mpr (exists_spells_encode f)

end FolGraph.Formula
