import FolGraph.Proofs.Graph.Faithful

/-!
# Dependency arcs between arguments

The only `ddg` arcs that the decoder tolerates between the arguments of a node are those of a
quantifier from another argument into its body, and it takes the argument inserted last for the
body. `ddg_between_arguments` says so for the formula that is decoded. Without a chain the argument
inserted last is also the last one of the formula; `ddg_into_declaration` shows that a chain can
put it elsewhere.
-/

namespace FolGraph.Graph

/-- A `ddg` arc between arguments that have an order is one into the argument inserted last. -/
theorem entersBody_of_ddg {g : Graph} (sound : g.Sound) {label : String}
    {children ordered : List Nat} (nodup : children.Nodup) (several : 2 ≤ children.length)
    (order : g.orderSiblings? label children = some ordered) {e : Edge} (he : e ∈ g.edges)
    (ddg : e.role = .ddg) (hs : e.source ∈ children) (ht : e.target ∈ children) :
    entersBody label children e = true := by
  by_contra other
  have between : e ∈ g.argumentArcs label children :=
    mem_argumentArcs.mpr ⟨he, hs, ht, Bool.eq_false_iff.mpr other⟩
  rcases (orderSiblings?_eq_some_iff sound nodup several).mp order with ⟨none, _⟩ | ⟨_, path⟩
  · rw [none] at between
    cases between
  · have ncs := role_of_mem_chainArcs (path.mem_iff.mp between)
    rw [ddg] at ncs
    cases ncs

/-- The nodes at which the parts of a formula were read: the root is the only starting node, and
the arguments of a part were read at the arguments of its node, in the order that the decoder gives
them. -/
structure Reading (g : Graph) (t : Formula) (node : List Nat → Nat) : Prop where
  bijection : Set.BijOn node {p | p ∈ t.positions} {v | v < g.size}
  root : ∀ v < g.size, (g.Unentered v ↔ v = node [])
  arguments : ∀ p s, t.sub? p = some s →
    ∃ n, g.node? (node p) = some n ∧ n.label = s.label ∧
      g.arguments n = .ok ((List.range s.args.length).map fun i => node (p ++ [i]))

theorem exists_reading {g : Graph} (sound : g.Sound) {strict : Bool} {t : Formula}
    (h : g.decode strict = .ok t) : ∃ node, g.Reading t node := by
  obtain ⟨root, ids, start, spells, all⟩ := exists_spells_of_decode sound h
  refine ⟨readAt t ids, bijOn_readAt spells.length_eq all, ?_, ?_⟩
  · obtain ⟨rest, rfl⟩ := spells.eq_cons
    have first : readAt t (root.id :: rest) [] = root.id := by simp [readAt]
    rw [first]
    exact ((startingNode_eq_ok_iff sound).mp start).2
  · intro p s hs
    obtain ⟨v, n, read, found, label, order⟩ := spells.node_at hs
    have here : readAt t ids p = v := by rw [readAt, read, Option.getD_some]
    exact ⟨n, here ▸ found, label, order⟩

/-- The argument inserted last is the last one in the order, unless a chain orders them. -/
theorem ListsArguments.eq_last {g : Graph} {v : Nat} {node : Nat → Nat} {count : Nat}
    (lists : g.ListsArguments v ((List.range count).map node)) (nodup : (g.children v).Nodup)
    (unlinked : g.chainOf v = []) {j : Nat} (hj : j < count)
    (last : (g.children v).getLast? = some (node j)) : j + 1 = count := by
  rw [← lists.unlinked unlinked] at nodup last
  have final : count - 1 < count := by omega
  rw [List.getLast?_eq_getElem?, List.length_map, List.length_range, List.getElem?_map,
    List.getElem?_range final, Option.map_some] at last
  have same := List.inj_on_of_nodup_map nodup (List.mem_range.mpr final) (List.mem_range.mpr hj)
    (Option.some.inj last)
  omega

/-- A `ddg` arc between two arguments of a node of a decoded graph belongs to a quantifier and runs
from another argument into the one inserted last, which is the last argument of the formula if no
chain orders the arguments. -/
theorem ddg_between_arguments {g : Graph} (built : g.Built) {strict : Bool} {t : Formula}
    (h : g.decode strict = .ok t) :
    (∃ node, g.Reading t node) ∧
      ∀ node, g.Reading t node → ∀ p s, t.sub? p = some s → 2 ≤ (g.children (node p)).length →
        ∀ e ∈ g.edges, e.role = .ddg → e.source ∈ g.children (node p) →
          e.target ∈ g.children (node p) →
          isQuantifier s.label = true ∧
            ∃ i j, i < s.args.length ∧ j < s.args.length ∧ i ≠ j ∧
              e.source = node (p ++ [i]) ∧ e.target = node (p ++ [j]) ∧
              (g.children (node p)).getLast? = some e.target ∧
              (g.chainOf (node p) = [] → j + 1 = s.args.length) := by
  have sound := built.sound
  obtain ⟨root, _, start, _⟩ := exists_spells_of_decode sound h
  have rooted := rootedAt_of_decode sound (decode_false_of_decode sound h) start
  refine ⟨exists_reading sound h, ?_⟩
  intro node reading p s hs several e he ddg source target
  obtain ⟨n, found, label, order⟩ := reading.arguments p s hs
  have id := sound.ids _ n found
  have nodup := sound.nodup_children (rooted.parentCount_le_one sound) (lt_size_of_node? found)
  have lists : g.ListsArguments (node p) _ :=
    id ▸ listsArguments_of_arguments sound (id ▸ nodup) order
  have sorted := id ▸ arguments_eq_ok.mp order
  obtain ⟨quantifier, _, ne, last⟩ :=
    entersBody_iff.mp (entersBody_of_ddg sound nodup several sorted he ddg source target)
  have listed : ∀ v ∈ g.children (node p), ∃ i, i < s.args.length ∧ v = node (p ++ [i]) := by
    intro v hv
    obtain ⟨i, hi, rfl⟩ := List.mem_map.mp (lists.all.mem_iff.mpr hv)
    exact ⟨i, List.mem_range.mp hi, rfl⟩
  obtain ⟨i, hi, atI⟩ := listed e.source source
  obtain ⟨j, hj, atJ⟩ := listed e.target target
  refine ⟨label ▸ quantifier, i, j, hi, hj, ?_, atI, atJ, last, ?_⟩
  · rintro rfl
    exact ne (atI.trans atJ.symm)
  · exact fun unlinked => lists.eq_last nodup unlinked hj (atJ ▸ last)

/-- A quantifier whose body was inserted last but is chained before the declaration. -/
def bodyFirst : Graph :=
  [⟨0, 1, .ast⟩, ⟨0, 2, .ast⟩, ⟨2, 1, .ncs⟩, ⟨1, 2, .ddg⟩].foldl .link
    (["!", "X", "p"].foldl .addNode .empty)

theorem built_bodyFirst : bodyFirst.Built :=
  (Built.empty.foldl_addNode ["!", "X", "p"]).foldl_link (by decide)

theorem decode_bodyFirst :
    bodyFirst.decode false = .ok (.node "!" [.leaf "p", .leaf "X"]) := rfl

theorem root_bodyFirst {t : Formula} {node : List Nat → Nat} (reading : bodyFirst.Reading t node) :
    node [] = 0 := by
  have free : bodyFirst.Unentered 0 := show ∀ e ∈ bodyFirst.edges, e.target ≠ 0 by decide
  exact ((reading.root 0 (by decide)).mp free).symm

/-- A decoded graph can have a `ddg` arc from the last argument of a quantifier, its body, into a
declaration. -/
theorem ddg_into_declaration :
    ¬∀ g : Graph, g.Built → ∀ t, g.decode false = .ok t → ∀ node, g.Reading t node →
      ∀ p s, t.sub? p = some s → 2 ≤ (g.children (node p)).length →
        ∀ e ∈ g.edges, e.role = .ddg → e.source ∈ g.children (node p) →
          e.target ∈ g.children (node p) →
          isQuantifier s.label = true ∧ e.target = node (p ++ [s.args.length - 1]) ∧
            ∃ i, i + 1 < s.args.length ∧ e.source = node (p ++ [i]) := by
  intro intoBody
  obtain ⟨node, reading⟩ := exists_reading built_bodyFirst.sound decode_bodyFirst
  have root := root_bodyFirst reading
  obtain ⟨n, found, _, order⟩ := reading.arguments [] _ rfl
  rw [root] at found
  obtain rfl : (⟨0, .universal, "!"⟩ : Node) = n := Option.some.inj found
  have read : bodyFirst.arguments ⟨0, .universal, "!"⟩ = .ok [2, 1] := rfl
  have kids : [2, 1] = [node [0], node [1]] := Except.ok.inj (read.symm.trans order)
  obtain ⟨_, target, _⟩ := intoBody bodyFirst built_bodyFirst _ decode_bodyFirst node reading [] _
    rfl (by rw [root]; decide) ⟨1, 2, .ddg⟩ (by decide) rfl (by rw [root]; decide)
    (by rw [root]; decide)
  have last : 2 = node [1] := target
  simp only [List.cons.injEq] at kids
  omega

theorem ddg_between_arguments_bodyFirst : bodyFirst.Built ∧
    bodyFirst.decode false = .ok (.node "!" [.leaf "p", .leaf "X"]) ∧
      ∃ node, bodyFirst.Reading (.node "!" [.leaf "p", .leaf "X"]) node ∧
        ∃ i j, i < 2 ∧ j < 2 ∧ i ≠ j ∧ 1 = node [i] ∧ 2 = node [j] := by
  obtain ⟨⟨node, reading⟩, between⟩ := ddg_between_arguments built_bodyFirst decode_bodyFirst
  have root := root_bodyFirst reading
  obtain ⟨_, i, j, hi, hj, ne, source, target, _⟩ := between node reading [] _ rfl
    (by rw [root]; decide) ⟨1, 2, .ddg⟩ (by decide) rfl (by rw [root]; decide)
    (by rw [root]; decide)
  exact ⟨built_bodyFirst, decode_bodyFirst, node, reading, i, j, hi, hj, ne, source, target⟩

end FolGraph.Graph
