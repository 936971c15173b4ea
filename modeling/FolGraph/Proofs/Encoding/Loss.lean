import FolGraph.Proofs.Encoding.RoundTrip
import FolGraph.Proofs.Graph.Faithful

/-!
# Lost arcs

A graph that has lost arcs never stands for another formula. Every `ast` arc is needed, since its
target can be reached in no other way; what is left of a chain must be all of it, or nothing, in
which case the order of insertion is the same; and `ddg` arcs do not matter. `decode_of_lost_arcs`
says that the decoder returns the formula if nothing else is lost, and else no formula at all.
-/

namespace FolGraph

namespace Graph

/-- A graph with the nodes of another and some of its arcs, in their order. -/
structure Keeps (g g' : Graph) : Prop where
  nodes : g.nodes = g'.nodes
  edges : g.edges.Sublist g'.edges

/-- All `ast` arcs are kept, and of the arcs that chain the arguments of a node all or none. -/
structure KeepsTree (g g' : Graph) : Prop where
  ast : g.edgesOfRole .ast = g'.edgesOfRole .ast
  chains : ∀ v < g.size, g.chainOf v = [] ∨ g.chainOf v = g'.chainOf v

theorem Keeps.refl (g : Graph) : g.Keeps g := ⟨rfl, .refl _⟩

theorem Keeps.size_eq {g g' : Graph} (keeps : g.Keeps g') : g.size = g'.size := by
  rw [size, size, keeps.nodes]

theorem Keeps.node?_eq {g g' : Graph} (keeps : g.Keeps g') (id : Nat) :
    g.node? id = g'.node? id := by
  rw [node?, node?, keeps.nodes]

theorem Keeps.argumentArcs_sublist {g g' : Graph} (keeps : g.Keeps g') (label : String)
    (children : List Nat) :
    (g.argumentArcs label children).Sublist (g'.argumentArcs label children) :=
  keeps.edges.filter _

theorem Sound.children_eq_of_ast {g g' : Graph} (sound : g.Sound) (sound' : g'.Sound)
    (ast : g.edgesOfRole .ast = g'.edgesOfRole .ast) (v : Nat) : g.children v = g'.children v := by
  rw [sound.children_eq_edgesOfRole, sound'.children_eq_edgesOfRole, ast]

end Graph

namespace Formula

open FolGraph.Graph (chainArcs length_chainArcs)

section
variable {f s : Formula} {g : Graph} {p : List Nat}

/-! ## Arcs between arguments -/

/-- The arcs between the arguments of an encoded node form their chain, or there are none. -/
theorem argumentArcs_encode_cases (hs : f.sub? p = some s) :
    f.encode.argumentArcs s.label (f.encode.children (f.index p)) = [] ∨
      (f.encode.argumentArcs s.label (f.encode.children (f.index p))).Perm
        (chainArcs (f.encode.children (f.index p))) := by
  by_cases layout : Layout.ofLabel s.label = .chained
  · exact Or.inr (argumentArcs_encode_of_chained hs layout (children_encode hs))
  · exact Or.inl (argumentArcs_encode_of_not_chained hs layout (children_encode hs))

/-- What is kept of the arcs that bear on the order of arguments is what is kept of their chain. -/
theorem argumentArcs_eq_chainOf (keeps : g.Keeps f.encode) (hs : f.sub? p = some s)
    (same : g.children (f.index p) = f.encode.children (f.index p)) :
    g.argumentArcs s.label (f.encode.children (f.index p)) = g.chainOf (f.index p) := by
  rw [Graph.chainOf_eq g s.label, same, eq_comm, List.filter_eq_self]
  intro e he
  have given := (keeps.argumentArcs_sublist _ _).subset he
  rcases argumentArcs_encode_cases hs with none | path
  · rw [none] at given
    cases given
  · simpa using Graph.role_of_mem_chainArcs (path.mem_iff.mp given)

/-- With their chain or without it, the arguments stand in the order of the formula. -/
theorem arguments_of_chainOf (sound : g.Sound) (keeps : g.Keeps f.encode)
    (hs : f.sub? p = some s) (same : g.children (f.index p) = f.encode.children (f.index p))
    (whole : g.chainOf (f.index p) = [] ∨ g.chainOf (f.index p) = f.encode.chainOf (f.index p)) :
    g.arguments ⟨f.index p, .ofLabel s.label, s.label⟩ = .ok (f.encode.children (f.index p)) := by
  have order : g.orderSiblings? s.label (f.encode.children (f.index p)) =
      some (f.encode.children (f.index p)) := by
    by_cases few : (f.encode.children (f.index p)).length < 2
    · exact Graph.orderSiblings?_of_length_lt_two few
    · rw [Graph.orderSiblings?_eq_some_iff sound (nodup_children_encode hs) (by omega),
        Graph.Arranged, argumentArcs_eq_chainOf keeps hs same]
      rcases whole with none | all
      · exact Or.inl ⟨none, rfl⟩
      · rw [all, ← argumentArcs_eq_chainOf (.refl _) hs rfl]
        exact (argumentArcs_encode_cases hs).imp (⟨·, rfl⟩) (⟨.refl _, ·⟩)
  rw [Graph.arguments_eq_ok, same]
  exact order

/-- Arcs that arrange the arguments are all arcs of their chain: a path has as many. -/
theorem chainOf_of_arranged (keeps : g.Keeps f.encode) (hs : f.sub? p = some s)
    (same : g.children (f.index p) = f.encode.children (f.index p))
    (arranged : 2 ≤ (f.encode.children (f.index p)).length →
      g.argumentArcs s.label (f.encode.children (f.index p)) = [] ∨
        ∃ path, path.Perm (f.encode.children (f.index p)) ∧
          (g.argumentArcs s.label (f.encode.children (f.index p))).Perm (chainArcs path)) :
    g.chainOf (f.index p) = [] ∨ g.chainOf (f.index p) = f.encode.chainOf (f.index p) := by
  have kept := keeps.argumentArcs_sublist s.label (f.encode.children (f.index p))
  have most : (f.encode.argumentArcs s.label (f.encode.children (f.index p))).length ≤
      (f.encode.children (f.index p)).length - 1 := by
    rcases argumentArcs_encode_cases hs with none | path
    · rw [none]
      exact Nat.zero_le _
    · rw [path.length_eq, length_chainArcs]
  rw [← argumentArcs_eq_chainOf keeps hs same, ← argumentArcs_eq_chainOf (.refl _) hs rfl]
  by_cases several : 2 ≤ (f.encode.children (f.index p)).length
  · refine (arranged several).imp id ?_
    rintro ⟨path, all, chain⟩
    have length := chain.length_eq
    rw [length_chainArcs, all.length_eq] at length
    -- as many arcs are left as there can be
    exact kept.eq_of_length_le (by omega)
  · have few := kept.length_le
    exact Or.inl (List.eq_nil_of_length_eq_zero (by omega))

/-! ## Decoding -/

theorem exists_position (keeps : g.Keeps f.encode) {v : Nat} (hv : v < g.size) :
    ∃ p s, f.sub? p = some s ∧ f.index p = v :=
  exists_index (by rwa [← size_encode, ← keeps.size_eq])

/-- A graph that is decoded has lost no `ast` arc and no part of a chain. -/
theorem keepsTree_of_decode (sound : g.Sound) (keeps : g.Keeps f.encode) {t : Formula}
    (h : g.decode false = .ok t) : g.KeepsTree f.encode := by
  have given := (Graph.decode_eq_ok_iff (sound_encode f)).mpr (exists_spells_encode f)
  have counted := Graph.length_ast_of_decode sound h
  have counted' := Graph.length_ast_of_decode (sound_encode f) given
  have ast : g.edgesOfRole .ast = f.encode.edgesOfRole .ast := by
    refine (keeps.edges.filter _).eq_of_length ?_
    have size := keeps.size_eq
    simp only [Graph.edgesOfRole] at counted counted'
    omega
  obtain ⟨root, _, start, _⟩ := Graph.exists_spells_of_decode sound h
  have rooted := Graph.rootedAt_of_decode sound h start
  refine ⟨ast, fun v hv => ?_⟩
  obtain ⟨p, s, hs, rfl⟩ := exists_position keeps hv
  have same := sound.children_eq_of_ast (sound_encode f) ast (f.index p)
  have found : (⟨f.index p, .ofLabel s.label, s.label⟩ : Node) ∈ g.nodes := by
    rw [keeps.nodes]
    exact List.mem_of_getElem? (node?_encode hs)
  refine chainOf_of_arranged keeps hs same fun several => ?_
  rw [← same] at several ⊢
  exact rooted.arranged _ found several

/-- Without its `ddg` arcs and some of its chains, the root is still the only node that no arc
enters. -/
theorem unentered_iff_of_ast (keeps : g.Keeps f.encode)
    (ast : g.edgesOfRole .ast = f.encode.edgesOfRole .ast) {v : Nat} (hv : v < g.size) :
    g.Unentered v ↔ v = rootId := by
  have hv' : v < f.size := by rwa [← size_encode, ← keeps.size_eq]
  constructor
  · intro free
    obtain ⟨p, s, hs, rfl⟩ := exists_position keeps hv
    rcases p.eq_nil_or_concat' with rfl | ⟨p, i, rfl⟩
    · exact index_nil f
    · have arc : ⟨f.index p, f.index (p ++ [i]), .ast⟩ ∈ f.encode.edgesOfRole .ast :=
        List.mem_filter.mpr ⟨ast_mem_encode.mpr ⟨p, i, s, hs, rfl, rfl⟩, rfl⟩
      rw [← ast] at arc
      exact absurd rfl (free _ (List.mem_filter.mp arc).1)
  · intro root e he
    exact (unentered_encode_iff hv').mpr root e (keeps.edges.subset he)

theorem startingNode_of_ast (sound : g.Sound) (keeps : g.Keeps f.encode)
    (ast : g.edgesOfRole .ast = f.encode.edgesOfRole .ast) :
    g.startingNode = f.encode.startingNode := by
  have found := ((Graph.startingNode_eq_ok_iff (sound_encode f)).mp (startingNode_encode f)).1
  rw [startingNode_encode, Graph.startingNode_eq_ok_iff sound]
  exact ⟨(keeps.node?_eq _).trans found, fun v hv => unentered_iff_of_ast keeps ast hv⟩

/-- A graph that has kept its tree is decoded to the formula. -/
theorem decode_of_keepsTree (sound : g.Sound) (keeps : g.Keeps f.encode)
    (tree : g.KeepsTree f.encode) : g.decode false = .ok f := by
  obtain ⟨root, ids, start, spells, all⟩ := exists_spells_encode f
  rw [← startingNode_of_ast sound keeps tree.ast] at start
  rw [← keeps.size_eq] at all
  refine (Graph.decode_eq_ok_iff sound).mpr ⟨root, ids, start, ?_, all⟩
  refine spells.of_arguments keeps.node?_eq fun {v n kids} found order => ?_
  have hv := keeps.size_eq ▸ Graph.lt_size_of_node? found
  obtain ⟨p, s, hs, rfl⟩ := exists_position keeps hv
  obtain rfl := Option.some.inj ((node?_encode hs).symm.trans found)
  have given := arguments_of_chainOf (sound_encode f) (.refl _) hs rfl (Or.inr rfl)
  obtain rfl := Except.ok.inj (given.symm.trans order)
  exact arguments_of_chainOf sound keeps hs
    (sound.children_eq_of_ast (sound_encode f) tree.ast _) (tree.chains _ hv)

end

/-- A quantified equation between terms, one of which has two arguments. -/
def equation : Formula := node "!" [leaf "X", node "=" [node "f" [leaf "X", leaf "a"], leaf "X"]]

/-- Its graph without the chain of the two arguments and with one of the two `ddg` arcs. -/
def thinned : Graph :=
  [⟨0, 1, .ast⟩, ⟨0, 2, .ast⟩, ⟨2, 3, .ast⟩, ⟨3, 4, .ast⟩, ⟨3, 5, .ast⟩, ⟨2, 6, .ast⟩,
      ⟨1, 6, .ddg⟩].foldl .link
    (["!", "X", "=", "f", "X", "a", "X"].foldl .addNode .empty)

theorem built_thinned : thinned.Built :=
  (Graph.Built.empty.foldl_addNode _).foldl_link (by decide)

/-- Whatever arcs the graph of a formula has lost, it is decoded to the formula or to none: to the
formula exactly if all `ast` arcs are left and of every chain all arcs or none. -/
theorem decode_of_lost_arcs {f : Formula} {g : Graph} (built : g.Built)
    (keeps : g.Keeps f.encode) :
    (∀ strict, (∃ e, g.decode strict = .error e) ∨ g.decode strict = .ok f) ∧
      (g.decode false = .ok f ↔ g.KeepsTree f.encode) := by
  have sound := built.sound
  refine ⟨fun strict => ?_, keepsTree_of_decode sound keeps, decode_of_keepsTree sound keeps⟩
  cases result : g.decode strict with
  | error e => exact Or.inl ⟨e, rfl⟩
  | ok t =>
    have lax := Graph.decode_false_of_decode sound result
    have decoded := decode_of_keepsTree sound keeps (keepsTree_of_decode sound keeps lax)
    rw [Except.ok.inj (lax.symm.trans decoded)]
    exact Or.inr rfl

theorem decode_of_lost_arcs_thinned : thinned.Built ∧ thinned.Keeps equation.encode ∧
    thinned.decode false = .ok equation := by
  have keeps : thinned.Keeps equation.encode := ⟨by decide, by decide⟩
  refine ⟨built_thinned, keeps, (decode_of_lost_arcs built_thinned keeps).2.mpr ⟨by decide, ?_⟩⟩
  decide

end Formula

end FolGraph
