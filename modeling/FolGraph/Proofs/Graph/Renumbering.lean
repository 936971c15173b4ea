import FolGraph.Proofs.Formula.Reordering
import FolGraph.Proofs.Graph.Spelling
import Mathlib.Data.Set.Function

/-!
# Renumbered graphs

`Renumbers` says that a graph is another one under new ids, with its arcs inserted in any order.
The arcs between the arguments of a node are then the same arcs under the new ids, and only the
order of insertion is lost. `exists_decode` says what this does to decoding: if all nodes but the
unordered operators keep the order of their arguments, the formula stays the same up to the order
of operands.
-/

namespace FolGraph

/-- An arc between the same nodes under new ids. -/
def Edge.renumber (σ : Nat → Nat) (e : Edge) : Edge := ⟨σ e.source, σ e.target, e.role⟩

namespace Graph

/-- The `ast` arcs that leave a node, in the order of insertion. -/
def astFrom (g : Graph) (v : Nat) : List Edge :=
  g.edges.filter fun e => e.source == v && e.role == .ast

/-- One graph becomes the other under new ids and another order of the arcs. The kinds that the
graphs store need not agree. -/
structure Renumbers (σ : Nat → Nat) (g g' : Graph) : Prop where
  bijOn : Set.BijOn σ {v | v < g.size} {v | v < g'.size}
  label : ∀ v n, g.node? v = some n → ∃ n', g'.node? (σ v) = some n' ∧ n'.label = n.label
  edges : g'.edges.Perm (g.edges.map (Edge.renumber σ))

section
variable {σ : Nat → Nat} {g g' : Graph}

/-! ## Arcs under new ids -/

theorem Renumbers.apply_inj (renumbers : Renumbers σ g g') {u v : Nat} (hu : u < g.size)
    (hv : v < g.size) : σ u = σ v ↔ u = v :=
  ⟨renumbers.bijOn.injOn hu hv, congrArg σ⟩

theorem Renumbers.nodup_map (renumbers : Renumbers σ g g') {ids : List Nat} (nodup : ids.Nodup)
    (inside : ∀ v ∈ ids, v < g.size) : (ids.map σ).Nodup :=
  nodup.map_on fun u hu v hv => (renumbers.apply_inj (inside u hu) (inside v hv)).mp

theorem renumber_injOn (inj : Set.InjOn σ {v | v < g.size}) :
    Set.InjOn (Edge.renumber σ) {e | g.hasEnds e = true} := by
  rintro ⟨s, t, r⟩ hd ⟨s', t', r'⟩ he same
  obtain ⟨source, target⟩ := hasEnds_iff.mp hd
  obtain ⟨source', target'⟩ := hasEnds_iff.mp he
  obtain ⟨sources, targets, rfl⟩ := Edge.mk.inj same
  obtain rfl := inj source source' sources
  obtain rfl := inj target target' targets
  rfl

/-- What picks the same arcs picks the same arcs under new ids. -/
theorem Renumbers.filter_perm (renumbers : Renumbers σ g g') {p p' : Edge → Bool}
    (same : ∀ e ∈ g.edges, p' (e.renumber σ) = p e) :
    (g'.edges.filter p').Perm ((g.edges.filter p).map (Edge.renumber σ)) := by
  have kept : (g.edges.filter fun e => p' (e.renumber σ)) = g.edges.filter p :=
    List.filter_congr same
  have perm := renumbers.edges.filter p'
  rwa [List.filter_map, Function.comp_def, kept] at perm

/-- Between two nodes there are as many arcs of a role as before. -/
theorem Renumbers.count_eq (renumbers : Renumbers σ g g') (sound : g.Sound) {e : Edge}
    (he : g.hasEnds e = true) : g'.edges.count (e.renumber σ) = g.edges.count e := by
  have same : ∀ d ∈ g.edges, (d.renumber σ == e.renumber σ) = (d == e) := by
    intro d hd
    rw [Bool.eq_iff_iff, beq_iff_eq, beq_iff_eq]
    exact (renumber_injOn renumbers.bijOn.injOn).eq_iff (sound.ends d hd) he
  have perm : (g'.edges.filter (· == e.renumber σ)).Perm
      ((g.edges.filter (· == e)).map (Edge.renumber σ)) := renumbers.filter_perm same
  rw [List.count, List.count, List.countP_eq_length_filter, List.countP_eq_length_filter,
    perm.length_eq, List.length_map]

theorem Renumbers.astFrom_perm (renumbers : Renumbers σ g g') (sound : g.Sound) {v : Nat}
    (hv : v < g.size) : (g'.astFrom (σ v)).Perm ((g.astFrom v).map (Edge.renumber σ)) := by
  refine renumbers.filter_perm fun e he => ?_
  rw [Bool.eq_iff_iff]
  simp only [Edge.renumber, Bool.and_eq_true, beq_iff_eq,
    renumbers.apply_inj (hasEnds_iff.mp (sound.ends e he)).1 hv]

theorem Sound.children_eq_astFrom (sound : g.Sound) (v : Nat) :
    g.children v = (g.astFrom v).map (·.target) := sound.children_eq v

theorem map_target_renumber (σ : Nat → Nat) (es : List Edge) :
    (es.map (Edge.renumber σ)).map (·.target) = (es.map (·.target)).map σ := by
  rw [List.map_map, List.map_map]
  rfl

theorem Renumbers.children_perm (renumbers : Renumbers σ g g') (sound : g.Sound)
    (sound' : g'.Sound) {v : Nat} (hv : v < g.size) :
    (g'.children (σ v)).Perm ((g.children v).map σ) := by
  rw [sound.children_eq_astFrom, sound'.children_eq_astFrom, ← map_target_renumber]
  exact (renumbers.astFrom_perm sound hv).map _

/-- Arcs that keep their order keep the arguments in their order. -/
theorem children_eq_of_astFrom_eq (sound : g.Sound) (sound' : g'.Sound) {v : Nat}
    (kept : g'.astFrom (σ v) = (g.astFrom v).map (Edge.renumber σ)) :
    g'.children (σ v) = (g.children v).map σ := by
  rw [sound.children_eq_astFrom, sound'.children_eq_astFrom, kept, map_target_renumber]

theorem Renumbers.contains_eq (renumbers : Renumbers σ g g') {kids kids' : List Nat}
    (inside : ∀ k ∈ kids, k < g.size) (all : kids'.Perm (kids.map σ)) {u : Nat} (hu : u < g.size) :
    kids'.contains (σ u) = kids.contains u := by
  rw [Bool.eq_iff_iff, List.contains_iff_mem, List.contains_iff_mem, all.mem_iff, List.mem_map]
  constructor
  · rintro ⟨k, hk, same⟩
    rwa [← (renumbers.apply_inj (inside k hk) hu).mp same]
  · exact fun hk => ⟨u, hk, rfl⟩

/-- An arc enters the body of a quantifier as before, if the body is still inserted last. -/
theorem Renumbers.entersBody_eq (renumbers : Renumbers σ g g') {label : String}
    {kids kids' : List Nat} (inside : ∀ k ∈ kids, k < g.size)
    (kept : isQuantifier label = true → kids' = kids.map σ) {e : Edge} (he : g.hasEnds e = true) :
    entersBody label kids' (e.renumber σ) = entersBody label kids e := by
  obtain ⟨source, target⟩ := hasEnds_iff.mp he
  cases kind : isQuantifier label with
  | false => simp [entersBody, kind]
  | true =>
    have last : (kids'.getLast? == some (σ e.target)) = (kids.getLast? == some e.target) := by
      rw [kept kind, List.getLast?_map, Bool.eq_iff_iff, beq_iff_eq, beq_iff_eq,
        Option.map_eq_some_iff]
      constructor
      · rintro ⟨k, found, same⟩
        rwa [← (renumbers.apply_inj (inside k (List.mem_of_getLast? found)) target).mp same]
      · exact fun found => ⟨_, found, rfl⟩
    have apart : (σ e.source != σ e.target) = (e.source != e.target) := by
      rw [Bool.eq_iff_iff, bne_iff_ne, bne_iff_ne, ne_eq, ne_eq, renumbers.apply_inj source target]
    simp only [entersBody, Edge.renumber, last, apart]

/-- The same arcs as before bear on the order of the arguments. -/
theorem Renumbers.argumentArcs_perm (renumbers : Renumbers σ g g') (sound : g.Sound)
    {label : String} {kids kids' : List Nat} (inside : ∀ k ∈ kids, k < g.size)
    (all : kids'.Perm (kids.map σ)) (kept : isQuantifier label = true → kids' = kids.map σ) :
    (g'.argumentArcs label kids').Perm ((g.argumentArcs label kids).map (Edge.renumber σ)) := by
  refine renumbers.filter_perm fun e he => ?_
  have ends := sound.ends e he
  obtain ⟨source, target⟩ := hasEnds_iff.mp ends
  rw [renumbers.entersBody_eq inside kept ends]
  simp only [Edge.renumber, renumbers.contains_eq inside all source,
    renumbers.contains_eq inside all target]

theorem eq_of_perm_of_length_lt_two {kids kids' : List Nat} (perm : kids'.Perm kids)
    (few : kids.length < 2) : kids' = kids := by
  match kids with
  | [] => exact perm.eq_nil
  | [_] => exact perm.eq_singleton

/-- Arguments that have an order have one under new ids. It is the same order if arcs decide it, or
if the order of insertion is kept. -/
theorem Renumbers.exists_orderSiblings? (renumbers : Renumbers σ g g') (sound : g.Sound)
    (sound' : g'.Sound) {label : String} {v : Nat} {kids : List Nat} (hv : v < g.size)
    (nodup : (g.children v).Nodup)
    (kept : isQuantifier label = true → g'.children (σ v) = (g.children v).map σ)
    (ordered : g.orderSiblings? label (g.children v) = some kids) :
    ∃ kids', g'.orderSiblings? label (g'.children (σ v)) = some kids' ∧
      kids'.Perm (kids.map σ) ∧
      ((g.argumentArcs label (g.children v) = [] → g'.children (σ v) = (g.children v).map σ) →
        kids' = kids.map σ) := by
  have inside : ∀ k ∈ g.children v, k < g.size := fun k hk =>
    (hasEnds_iff.mp (sound.ends _ (sound.mem_children.mp hk))).2
  have all := renumbers.children_perm sound sound' hv
  have length := all.length_eq
  rw [List.length_map] at length
  by_cases few : (g.children v).length < 2
  · -- so few arguments are in order whatever arcs run between them
    rw [orderSiblings?_of_length_lt_two few] at ordered
    obtain rfl := Option.some.inj ordered
    have same := eq_of_perm_of_length_lt_two all (by simpa using few)
    exact ⟨_, orderSiblings?_of_length_lt_two (by omega), all, fun _ => same⟩
  · have nodup' := all.nodup_iff.mpr (renumbers.nodup_map nodup inside)
    have arcs := renumbers.argumentArcs_perm sound inside all kept
    rw [orderSiblings?_eq_some_iff sound nodup (by omega)] at ordered
    simp only [orderSiblings?_eq_some_iff sound' nodup' (show 2 ≤ (g'.children (σ v)).length by
      omega)]
    rcases ordered with ⟨none, rfl⟩ | ⟨perm, chain⟩
    · rw [none] at arcs
      exact ⟨_, Or.inl ⟨arcs.eq_nil, rfl⟩, all, fun unlinked => unlinked none⟩
    · refine ⟨kids.map σ, Or.inr ⟨(perm.map σ).trans all.symm, ?_⟩, List.Perm.refl _, fun _ => rfl⟩
      rw [chainArcs_map]
      exact arcs.trans (chain.map (Edge.renumber σ))

/-! ## Decoding under new ids -/

theorem Renumbers.unentered_iff (renumbers : Renumbers σ g g') (sound : g.Sound) {v : Nat}
    (hv : v < g.size) : g'.Unentered (σ v) ↔ g.Unentered v := by
  constructor
  · intro free e he target
    have moved : e.renumber σ ∈ g'.edges :=
      renumbers.edges.mem_iff.mpr (List.mem_map_of_mem he)
    exact free _ moved (congrArg σ target)
  · intro free e' he' target
    obtain ⟨e, he, rfl⟩ := List.mem_map.mp (renumbers.edges.mem_iff.mp he')
    exact free e he ((renumbers.apply_inj (hasEnds_iff.mp (sound.ends e he)).2 hv).mp target)

theorem Renumbers.exists_startingNode (renumbers : Renumbers σ g g') (sound : g.Sound)
    (sound' : g'.Sound) {n : Node} (start : g.startingNode = .ok n) :
    ∃ n', g'.startingNode = .ok n' ∧ n'.id = σ n.id := by
  obtain ⟨found, only⟩ := (startingNode_eq_ok_iff sound).mp start
  obtain ⟨n', found', _⟩ := renumbers.label _ n found
  have id := sound'.ids _ n' found'
  refine ⟨n', (startingNode_eq_ok_iff sound').mpr ⟨by rwa [id], fun w hw => ?_⟩, id⟩
  obtain ⟨v, hv, rfl⟩ := renumbers.bijOn.surjOn hw
  rw [renumbers.unentered_iff sound hv, only v hv, id,
    renumbers.apply_inj hv (lt_size_of_node? found)]

theorem Renumbers.perm_range (renumbers : Renumbers σ g g') {ids : List Nat}
    (all : ids.Perm (List.range g.size)) : (ids.map σ).Perm (List.range g'.size) := by
  have inside : ∀ {v}, v ∈ ids ↔ v < g.size := by
    intro v
    rw [all.mem_iff, List.mem_range]
  refine perm_range_of_nodup ?_ ?_ ?_
  · exact renumbers.nodup_map (all.nodup_iff.mpr List.nodup_range) fun v => inside.mp
  · intro w hw
    obtain ⟨v, hv, rfl⟩ := List.mem_map.mp hw
    exact renumbers.bijOn.mapsTo (inside.mp hv)
  · intro w hw
    obtain ⟨v, hv, rfl⟩ := renumbers.bijOn.surjOn hw
    exact List.mem_map_of_mem (inside.mpr hv)

/-- Every node has the label and the arguments that it had, and the arguments are in their order
unless the node is an unordered operator. -/
def KeepsArguments (σ : Nat → Nat) (g g' : Graph) : Prop :=
  ∀ v n kids, g.node? v = some n → g.arguments n = .ok kids →
    ∃ n' kids', g'.node? (σ v) = some n' ∧ n'.label = n.label ∧ g'.arguments n' = .ok kids' ∧
      kids'.Perm (kids.map σ) ∧ (isUnordered n.label = false → kids' = kids.map σ)

/-- Nodes spell their formulas in any order. -/
theorem SpellsAll.exists_of_perm {kids kids' ids : List Nat} {fs : List Formula}
    (h : g.SpellsAll kids fs ids) (perm : kids'.Perm kids) :
    ∃ fs' ids', g.SpellsAll kids' fs' ids' ∧ fs'.Perm fs ∧ ids'.Perm ids := by
  induction perm generalizing fs ids with
  | nil => exact ⟨fs, ids, h, List.Perm.refl _, List.Perm.refl _⟩
  | cons k _ ih =>
    cases h with
    | @cons _ f _ own rest fs first others =>
      obtain ⟨fs', rest', spells, perm, perm'⟩ := ih others
      exact ⟨f :: fs', own ++ rest', .cons first spells, perm.cons f, perm'.append_left own⟩
  | swap k l _ =>
    cases h with
    | @cons _ f _ own _ _ first others =>
      cases others with
      | @cons _ f' _ own' rest fs second others =>
        refine ⟨f' :: f :: fs, own' ++ (own ++ rest), .cons second (.cons first others),
          List.Perm.swap f f' fs, ?_⟩
        rw [← List.append_assoc, ← List.append_assoc]
        exact List.perm_append_comm.append_right rest
  | trans _ _ ih ih' =>
    obtain ⟨fs', ids', spells, perm, perm'⟩ := ih' h
    obtain ⟨fs'', ids'', spells, perm₂, perm₂'⟩ := ih spells
    exact ⟨fs'', ids'', spells, perm₂.trans perm, perm₂'.trans perm'⟩

mutual

/-- Under new ids a node spells its formula with operands in another order. -/
theorem Spells.exists_renumbered (keeps : KeepsArguments σ g g') {id : Nat} {f : Formula}
    {ids : List Nat} : g.Spells id f ids →
      ∃ f' ids', g'.Spells (σ id) f' ids' ∧ f'.Reordered f ∧ ids'.Perm (ids.map σ)
  | @Spells.node _ id n kids ids args found ordered rest => by
    obtain ⟨n', kids', found', label, ordered', all, kept⟩ := keeps id n kids found ordered
    obtain ⟨fs, own, spells, each, perm⟩ := rest.exists_renumbered keeps
    cases kind : isUnordered n.label with
    | false =>
      obtain rfl := kept kind
      refine ⟨_, _, .node found' ordered' spells, ?_, perm.cons (σ id)⟩
      rw [label]
      exact .node each (List.Perm.refl args) fun _ => rfl
    | true =>
      -- the operands were read in the old order and are now read in that of `kids'`
      obtain ⟨fs', own', spells, moved, moved'⟩ := spells.exists_of_perm all
      obtain ⟨args', each, perm'⟩ := List.perm_comp_forall₂ moved each
      refine ⟨_, _, .node found' ordered' spells, ?_, (moved'.trans perm).cons (σ id)⟩
      rw [label]
      exact .node each perm' (by simp [kind])

theorem SpellsAll.exists_renumbered (keeps : KeepsArguments σ g g') {kids ids : List Nat}
    {fs : List Formula} : g.SpellsAll kids fs ids →
      ∃ fs' ids', g'.SpellsAll (kids.map σ) fs' ids' ∧ List.Forall₂ Formula.Reordered fs' fs ∧
        ids'.Perm (ids.map σ)
  | .nil => ⟨[], [], .nil, .nil, List.Perm.nil⟩
  | .cons first others => by
    obtain ⟨f', own, spells, reordered, perm⟩ := first.exists_renumbered keeps
    obtain ⟨fs', rest, spellsAll, each, perm'⟩ := others.exists_renumbered keeps
    refine ⟨f' :: fs', own ++ rest, .cons spells spellsAll, .cons reordered each, ?_⟩
    rw [List.map_append]
    exact perm.append perm'

end

/-- A renumbered graph is decoded to the same formula, up to the order of operands. -/
theorem Renumbers.exists_decode (renumbers : Renumbers σ g g') (sound : g.Sound)
    (sound' : g'.Sound) (keeps : KeepsArguments σ g g') {f : Formula}
    (decoded : g.decode false = .ok f) :
    ∃ f', g'.decode false = .ok f' ∧ f'.Reordered f := by
  obtain ⟨root, ids, start, spells, all⟩ := (decode_eq_ok_iff sound).mp decoded
  obtain ⟨root', start', id⟩ := renumbers.exists_startingNode sound sound' start
  obtain ⟨f', ids', spells', reordered, perm⟩ := spells.exists_renumbered keeps
  rw [← id] at spells'
  exact ⟨f', (decode_eq_ok_iff sound').mpr
    ⟨root', ids', start', spells', perm.trans (renumbers.perm_range all)⟩, reordered⟩

end

end Graph

end FolGraph
