import FolGraph.Proofs.Graph.Scan

/-!
# The order of arguments

The order of the arguments of a node, whatever arcs run between them and however often an argument
is listed. `arguments_in_order` says that it is a permutation of the arguments, that of insertion or
along a chain, and that the walk which finds it passes no position twice and so ends by itself.
-/

namespace FolGraph.Graph

open Checked

/-- A walk that ends by itself does so however far one follows it. -/
theorem follow_eq_of_length_lt {arcs : List Edge} {m n i : Nat}
    (short : (follow arcs m i).length < m) (enough : (follow arcs m i).length < n) :
    follow arcs n i = follow arcs m i := by
  induction m generalizing n i with
  | zero => simp at short
  | succ m ih =>
    cases n with
    | zero => simp at enough
    | succ n =>
      simp only [follow] at short enough ⊢
      cases found : nextOf? arcs i with
      | none => rfl
      | some j =>
        simp only [found, List.length_cons, Nat.add_lt_add_iff_right] at short enough
        simp only [ih short enough]

theorem isChain_of_chainArcs_subset {path : List Nat} {es : List Edge}
    (sub : chainArcs path ⊆ es) : path.IsChain fun a b => ⟨a, b, .ncs⟩ ∈ es := by
  rw [List.isChain_iff_getElem]
  intro k hk
  refine sub (mem_chainArcs.mpr ⟨k, ?_, List.getElem?_eq_getElem hk, rfl⟩)
  exact List.getElem?_eq_getElem (by omega)

/-- The arcs that bear on the order of arguments run between these arguments. -/
theorem resolve_mem_edges {g : Graph} (sound : g.Sound) {label : String} {children : List Nat}
    {arc : Edge} (h : arc ∈ g.siblingArcs label children) : resolve children arc ∈ g.edges := by
  obtain ⟨⟨e, he, hi, hj, role⟩, _⟩ := (mem_siblingArcs sound).mp h
  have same : resolve children arc = e := by
    rw [resolve, hi, getElem?_of_lastIndexOf? hj, ← role]
    rfl
  rwa [same]

/-- If an arc bears on the order of arguments, each is linked to the next one in the order. -/
theorem isChain_of_orderSiblings? {g : Graph} (sound : g.Sound) {label : String}
    {children ordered : List Nat} (order : g.orderSiblings? label children = some ordered)
    (linked : g.argumentArcs label children ≠ []) :
    ordered.IsChain fun a b => ⟨a, b, .ncs⟩ ∈ g.edges := by
  by_cases few : children.length < 2
  · have length := (perm_of_orderSiblings? order).length_eq
    rw [List.isChain_iff_getElem]
    intro k hk
    omega
  have linked := (siblingArcs_eq_nil_iff sound label children).not.mpr linked
  have shown : (g.siblingArcs label children).isEmpty = false := by simpa using linked
  rw [orderSiblings?, if_neg few] at order
  simp only [shown, Bool.false_eq_true, if_false] at order
  obtain ⟨path, found, rfl⟩ := Option.map_eq_some_iff.mp order
  obtain ⟨all, chain⟩ := (pathOrder?_eq_some_iff
    (fun _ harc => (bounded_of_mem_siblingArcs harc).2) (by omega)).mp found
  -- the path is one of positions: its arcs are stored between the arguments at these positions
  refine isChain_of_chainArcs_subset ?_
  rw [filterMap_getElem?_eq_map fun i hi => List.mem_range.mp (all.mem_iff.mp hi), chainArcs_map]
  intro e he
  obtain ⟨arc, harc, rfl⟩ := List.mem_map.mp he
  exact resolve_mem_edges sound (chain.mem_iff.mpr harc)

theorem orderSiblings?_of_argumentArcs_eq_nil {g : Graph} (sound : g.Sound) {label : String}
    {children : List Nat} (unlinked : g.argumentArcs label children = []) :
    g.orderSiblings? label children = some children := by
  have none := (siblingArcs_eq_nil_iff sound label children).mpr unlinked
  simp [orderSiblings?, none]

/-- From a single head, the walk over the notes of a scan passes different positions and ends by
itself: the room that it is given does not matter if it is enough for them. -/
theorem exists_path_of_scan {g : Graph} (sound : g.Sound) {parent : Node} {children : List Nat}
    {l : Links} {head : Nat} (noted : scan g parent children (children.length - 1) = .ok l)
    (only : heads l (List.range children.length) = .ok [head]) :
    ∃ path : List Nat, path.Nodup ∧ (∀ i ∈ path, i < children.length) ∧
      path.length ≤ children.length ∧ ∀ room, path.length ≤ room →
        walk children l room (some head) = .ok (path.filterMap (children[·]?)) := by
  have bounded : ∀ e ∈ g.siblingArcs parent.label children, e.target < children.length :=
    fun _ harc => (bounded_of_mem_siblingArcs harc).2
  rw [scan_eq sound] at noted
  split at noted
  case isFalse => cases noted
  case isTrue plain =>
    obtain rfl := Except.ok.inj noted
    rw [heads_ofArcs fun i hi => List.mem_range.mp hi] at only
    have only := Except.ok.inj only
    have inside := (head_of_filter only).1
    obtain ⟨nodup, few⟩ := follow_length_le plain bounded only (children.length + 1)
    refine ⟨_, nodup, fun i hi => follow_lt bounded inside hi, few, fun room enough => ?_⟩
    have same := follow_eq_of_length_lt (Nat.lt_succ_of_le few) (Nat.lt_succ_of_le enough)
    rw [walk_ofArcs bounded inside (by rwa [same]), same]

/-- A quantifier with a declaration that is listed twice, and a body whose arguments were inserted
against the order of their chain. -/
def listedTwice : Graph :=
  [⟨0, 1, .ast⟩, ⟨0, 1, .ast⟩, ⟨0, 2, .ast⟩, ⟨1, 2, .ddg⟩, ⟨2, 5, .ast⟩, ⟨2, 4, .ast⟩,
    ⟨2, 3, .ast⟩, ⟨3, 4, .ncs⟩, ⟨4, 5, .ncs⟩].foldl .link
    (["!", "p", "p", "X", "Y", "Z"].foldl .addNode .empty)

theorem built_listedTwice : listedTwice.Built :=
  (Built.empty.foldl_addNode ["!", "p", "p", "X", "Y", "Z"]).foldl_link (by decide)

/-- Arguments get an order without faults or none. The order lists them as often as they are
arguments. It is that of insertion if no arc between them bears on it; otherwise each of them is
chained to the next. The walk that looks for the order passes no position twice and ends by itself,
after as many steps as there are arguments at most. -/
theorem arguments_in_order {g : Graph} (built : g.Built) (n : Node) :
    Checked.arguments g n = safe (g.arguments n) ∧
      (∀ ordered, g.arguments n = .ok ordered → ordered.Perm (g.children n.id) ∧
        (g.argumentArcs n.label (g.children n.id) ≠ [] →
          ordered.IsChain fun a b => ⟨a, b, .ncs⟩ ∈ g.edges)) ∧
      (g.argumentArcs n.label (g.children n.id) = [] → g.arguments n = .ok (g.children n.id)) ∧
      ∀ l head, scan g n (g.children n.id) ((g.children n.id).length - 1) = .ok l →
        heads l (List.range (g.children n.id).length) = .ok [head] →
        ∃ path : List Nat, path.Nodup ∧ (∀ i ∈ path, i < (g.children n.id).length) ∧
          path.length ≤ (g.children n.id).length ∧ ∀ room, path.length ≤ room →
            walk (g.children n.id) l room (some head) =
              .ok (path.filterMap ((g.children n.id)[·]?)) := by
  have sound := built.sound
  refine ⟨arguments_eq sound n, fun ordered h => ?_, fun unlinked => ?_,
    fun l head noted only => exists_path_of_scan sound noted only⟩
  · have order := arguments_eq_ok.mp h
    exact ⟨perm_of_orderSiblings? order, isChain_of_orderSiblings? sound order⟩
  · exact arguments_eq_ok.mpr (orderSiblings?_of_argumentArcs_eq_nil sound unlinked)

theorem arguments_in_order_listedTwice : listedTwice.Built ∧
    listedTwice.arguments ⟨0, .universal, "!"⟩ = .ok [1, 1, 2] ∧
    listedTwice.arguments ⟨2, .application, "p"⟩ = .ok [3, 4, 5] ∧ [3, 4, 5].Perm [5, 4, 3] ∧
    ([3, 4, 5].IsChain fun a b => ⟨a, b, .ncs⟩ ∈ listedTwice.edges) ∧
    ∃ path : List Nat, path.Nodup ∧ path.length ≤ 3 ∧ ∀ room, path.length ≤ room →
      walk [5, 4, 3] ⟨[none, some 0, some 1], [true, true, false], 2⟩ room (some 2) =
        .ok (path.filterMap ([5, 4, 3][·]?)) := by
  obtain ⟨_, _, unchanged, _⟩ := arguments_in_order built_listedTwice ⟨0, .universal, "!"⟩
  obtain ⟨_, permuted, _, walks⟩ :=
    arguments_in_order built_listedTwice ⟨2, .application, "p"⟩
  have order : listedTwice.arguments ⟨2, .application, "p"⟩ = .ok [3, 4, 5] := rfl
  obtain ⟨same, chained⟩ := permuted _ order
  obtain ⟨path, nodup, _, few, walked⟩ := walks _ 2 rfl rfl
  exact ⟨built_listedTwice, unchanged rfl, order, same, chained (by decide), path, nodup, few,
    walked⟩

end FolGraph.Graph
