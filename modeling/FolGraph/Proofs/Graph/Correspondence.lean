import FolGraph.Proofs.Graph.Renumbering

/-!
# Decoding under new ids

The decoder looks at ids to find nodes and to compare them, and it does not look at stored kinds at
all. So graphs that differ in ids and kinds only are read alike, step by step: both steps succeed,
or both fail for the same reason (`Agree`). `decode_renumbered` draws the consequence for the
decoder, strict or not, on well-formed graphs and on all others.
-/

namespace FolGraph.Graph

/-- One graph becomes the other under new ids; arcs keep their order. The kinds that the graphs
store need not agree. -/
structure RenumbersInOrder (σ : Nat → Nat) (g g' : Graph) : Prop where
  bijOn : Set.BijOn σ {v | v < g.size} {v | v < g'.size}
  label : ∀ v n, g.node? v = some n → ∃ n', g'.node? (σ v) = some n' ∧ n'.label = n.label
  edges : g'.edges = g.edges.map (Edge.renumber σ)

/-- A node of a graph and the node that it becomes under new ids. -/
structure Moves (σ : Nat → Nat) (g g' : Graph) (n n' : Node) : Prop where
  found : g.node? n.id = some n
  found' : g'.node? n'.id = some n'
  id : n'.id = σ n.id
  label : n'.label = n.label

/-- The same reason to refuse a graph, with the same counts and at the same nodes. Only the two
starting nodes that are named may be others. -/
inductive Corresponds (σ : Nat → Nat) (g g' : Graph) : DecodeError → DecodeError → Prop where
  | noStartingNode : Corresponds σ g g' .noStartingNode .noStartingNode
  | multipleStartingNodes (first second first' second' : Node) :
      Corresponds σ g g' (.multipleStartingNodes first second)
        (.multipleStartingNodes first' second')
  | invalidChildArrangement {n n' : Node} (moves : Moves σ g g' n n') :
      Corresponds σ g g' (.invalidChildArrangement n) (.invalidChildArrangement n')
  | nonTerminalNameNode {n n' : Node} (moves : Moves σ g g' n n') (successors : Nat) :
      Corresponds σ g g' (.nonTerminalNameNode n successors) (.nonTerminalNameNode n' successors)
  | wrongSuccessorCount {n n' : Node} (moves : Moves σ g g' n n') (expected : Arity)
      (found : Nat) :
      Corresponds σ g g' (.wrongSuccessorCount n expected found)
        (.wrongSuccessorCount n' expected found)
  | revisitedNode {n n' : Node} (moves : Moves σ g g' n n') :
      Corresponds σ g g' (.revisitedNode n) (.revisitedNode n')
  | unreachableNodes (count : Nat) :
      Corresponds σ g g' (.unreachableNodes count) (.unreachableNodes count)

/-- Two steps agree: both succeed with related results, or both fail for the same reason. -/
def Agree (σ : Nat → Nat) (g g' : Graph) {α β : Type} (related : α → β → Prop) :
    Except DecodeError α → Except DecodeError β → Prop
  | .ok a, .ok b => related a b
  | .error e, .error e' => Corresponds σ g g' e e'
  | _, _ => False

section
variable {σ : Nat → Nat} {g g' : Graph}

theorem Agree.bind {α α' β β' : Type} {P : α → α' → Prop} {Q : β → β' → Prop}
    {x : Except DecodeError α} {x' : Except DecodeError α'} {k : α → Except DecodeError β}
    {k' : α' → Except DecodeError β'} (first : Agree σ g g' P x x')
    (next : ∀ a a', P a a' → Agree σ g g' Q (k a) (k' a')) :
    Agree σ g g' Q (x >>= k) (x' >>= k') := by
  cases x with
  | error e =>
    cases x' with
    | error e' => exact first
    | ok a' => exact first.elim
  | ok a =>
    cases x' with
    | error e' => exact first.elim
    | ok a' => exact next a a' first

/-! ## Nodes and arcs -/

theorem RenumbersInOrder.renumbers (renumbers : RenumbersInOrder σ g g') : Renumbers σ g g' :=
  ⟨renumbers.bijOn, renumbers.label, .of_eq renumbers.edges⟩

theorem RenumbersInOrder.moves (renumbers : RenumbersInOrder σ g g') {n n' : Node}
    (found : g.node? n.id = some n) (found' : g'.node? n'.id = some n') (id : n'.id = σ n.id) :
    Moves σ g g' n n' := by
  obtain ⟨m', at_id, label⟩ := renumbers.label n.id n found
  rw [← id, found'] at at_id
  obtain rfl := Option.some.inj at_id
  exact ⟨found, found', id, label⟩

/-- What picks the same nodes picks the same nodes under new ids, perhaps in another order. -/
theorem RenumbersInOrder.ids_perm (renumbers : RenumbersInOrder σ g g') (sound : g.Sound)
    (sound' : g'.Sound) (p p' : Nat → Bool) (same : ∀ v < g.size, p' (σ v) = p v) :
    ((g'.nodes.filter (p' ·.id)).map (·.id)).Perm
      (((g.nodes.filter (p ·.id)).map (·.id)).map σ) := by
  have ids : ∀ {h : Graph} (_ : h.Sound) (q : Nat → Bool),
      (h.nodes.filter (q ·.id)).map (·.id) = (List.range h.size).filter q := by
    intro h sound q
    rw [← sound.map_id_nodes, List.filter_map]
    rfl
  have all := (renumbers.renumbers.perm_range (List.Perm.refl (List.range g.size))).filter p'
  rw [List.filter_map] at all
  rw [ids sound, ids sound']
  refine all.symm.trans (.of_eq ?_)
  congr 1
  exact List.filter_congr fun v hv => same v (List.mem_range.mp hv)

theorem RenumbersInOrder.filter_eq (renumbers : RenumbersInOrder σ g g') {p p' : Edge → Bool}
    (same : ∀ e ∈ g.edges, p' (e.renumber σ) = p e) :
    g'.edges.filter p' = (g.edges.filter p).map (Edge.renumber σ) := by
  rw [renumbers.edges, List.filter_map]
  congr 1
  exact List.filter_congr same

theorem RenumbersInOrder.outEdges_eq (renumbers : RenumbersInOrder σ g g') (sound : g.Sound)
    (sound' : g'.Sound) {v : Nat} (hv : v < g.size) :
    g'.outEdges (σ v) = (g.outEdges v).map (Edge.renumber σ) := by
  rw [sound.outEdges_eq, sound'.outEdges_eq]
  refine renumbers.filter_eq fun e he => ?_
  rw [Bool.eq_iff_iff, beq_iff_eq, beq_iff_eq]
  exact renumbers.renumbers.apply_inj (hasEnds_iff.mp (sound.ends e he)).1 hv

theorem RenumbersInOrder.children_eq (renumbers : RenumbersInOrder σ g g') (sound : g.Sound)
    (sound' : g'.Sound) {v : Nat} (hv : v < g.size) :
    g'.children (σ v) = (g.children v).map σ := by
  refine children_eq_of_astFrom_eq sound sound' (renumbers.filter_eq fun e he => ?_)
  rw [Bool.eq_iff_iff]
  simp only [Edge.renumber, Bool.and_eq_true, beq_iff_eq,
    renumbers.renumbers.apply_inj (hasEnds_iff.mp (sound.ends e he)).1 hv]

theorem RenumbersInOrder.inDegree_eq (renumbers : RenumbersInOrder σ g g') (sound : g.Sound)
    (sound' : g'.Sound) {v : Nat} (hv : v < g.size) : g'.inDegree (σ v) = g.inDegree v := by
  rw [sound.inDegree_eq, sound'.inDegree_eq, renumbers.edges, List.countP_map]
  refine List.countP_congr fun e he => ?_
  simp only [Function.comp_apply, Edge.renumber, beq_iff_eq]
  exact renumbers.renumbers.apply_inj (hasEnds_iff.mp (sound.ends e he)).2 hv

/-! ## The order of arguments -/

theorem idxOf?_map {x : Nat} {xs : List Nat} (inj : ∀ y ∈ xs, σ y = σ x ↔ y = x) :
    (xs.map σ).idxOf? (σ x) = xs.idxOf? x := by
  induction xs with
  | nil => rfl
  | cons y ys ih =>
    obtain ⟨here, rest⟩ := List.forall_mem_cons.mp inj
    have first : (σ y == σ x) = (y == x) := by
      rw [Bool.eq_iff_iff, beq_iff_eq, beq_iff_eq, here]
    rw [List.map_cons, List.idxOf?_cons, List.idxOf?_cons, first, ih rest]

theorem lastIndexOf?_map {x : Nat} {xs : List Nat} (inj : ∀ y ∈ xs, σ y = σ x ↔ y = x) :
    lastIndexOf? (σ x) (xs.map σ) = lastIndexOf? x xs := by
  have reversed : ∀ y ∈ xs.reverse, σ y = σ x ↔ y = x :=
    fun y hy => inj y (List.mem_reverse.mp hy)
  rw [lastIndexOf?, lastIndexOf?, ← List.map_reverse, idxOf?_map reversed, List.length_map]

/-- Said by positions in the list of arguments, the arcs between them do not change. -/
theorem RenumbersInOrder.siblingArcs_eq (renumbers : RenumbersInOrder σ g g') (sound : g.Sound)
    (sound' : g'.Sound) (label : String) {kids : List Nat} (inside : ∀ k ∈ kids, k < g.size) :
    g'.siblingArcs label (kids.map σ) = g.siblingArcs label kids := by
  have position : ∀ e ∈ g.edges, lastIndexOf? (σ e.target) (kids.map σ) =
      lastIndexOf? e.target kids := fun e he => lastIndexOf?_map fun k hk =>
    renumbers.renumbers.apply_inj (inside k hk) (hasEnds_iff.mp (sound.ends e he)).2
  have arcs : g'.positionArcs (kids.map σ) = g.positionArcs kids := by
    rw [positionArcs, positionArcs, List.zipIdx_map, List.flatMap_map]
    refine List.flatMap_congr ?_
    rintro ⟨k, i⟩ hk
    have member : k ∈ kids := List.mem_of_getElem? (List.mem_zipIdx_iff_getElem?.mp hk)
    simp only [Prod.map_apply, id_eq]
    rw [renumbers.outEdges_eq sound sound' (inside k member), List.filterMap_map]
    refine List.filterMap_congr fun e he => ?_
    rw [sound.outEdges_eq] at he
    simp only [Function.comp_apply, Edge.renumber, position e (List.mem_filter.mp he).1]
  rw [Graph.siblingArcs_eq, Graph.siblingArcs_eq, arcs, List.length_map]

/-- Arguments have an order under new ids exactly if they had one, and it is the same. -/
theorem RenumbersInOrder.orderSiblings?_eq (renumbers : RenumbersInOrder σ g g')
    (sound : g.Sound) (sound' : g'.Sound) (label : String) {kids : List Nat}
    (inside : ∀ k ∈ kids, k < g.size) :
    g'.orderSiblings? label (kids.map σ) = (g.orderSiblings? label kids).map (List.map σ) := by
  have pick : ∀ path : List Nat, path.filterMap ((kids.map σ)[·]?) =
      (path.filterMap (kids[·]?)).map σ := by
    intro path
    rw [List.map_filterMap]
    simp only [List.getElem?_map]
  rw [orderSiblings?, orderSiblings?, List.length_map,
    renumbers.siblingArcs_eq sound sound' label inside]
  by_cases few : kids.length < 2
  · rw [if_pos few, if_pos few, Option.map_some]
  · rw [if_neg few, if_neg few]
    by_cases none : (g.siblingArcs label kids).isEmpty = true
    · simp only [none, if_true, Option.map_some]
    · simp only [none, Bool.false_eq_true, if_false, Option.map_map, Function.comp_def, pick]

/-! ## One step of a reading -/

theorem RenumbersInOrder.exists_moves (renumbers : RenumbersInOrder σ g g') (sound : g.Sound)
    (sound' : g'.Sound) {v : Nat} (hv : v < g.size) :
    ∃ n n', g.node? v = some n ∧ g'.node? (σ v) = some n' ∧ n.id = v ∧ Moves σ g g' n n' := by
  obtain ⟨n, rfl, found⟩ := sound.exists_node? hv
  obtain ⟨n', found', label⟩ := renumbers.label n.id n found
  have id := sound'.ids _ n' found'
  exact ⟨n, n', found, found', rfl, found, by rwa [id], id, label⟩

theorem RenumbersInOrder.enter_agree (renumbers : RenumbersInOrder σ g g') (sound : g.Sound)
    (sound' : g'.Sound) {id : Nat} {visited : List Nat} (hid : id < g.size)
    (inside : ∀ v ∈ visited, v < g.size) :
    Agree σ g g' (fun n n' => Moves σ g g' n n' ∧ n.id = id)
      (g.enter id visited) (g'.enter (σ id) (visited.map σ)) := by
  obtain ⟨n, n', found, found', same, moves⟩ := renumbers.exists_moves sound sound' hid
  have seen := renumbers.renumbers.contains_eq inside (List.Perm.refl _) hid
  rw [enter, enter, found, found']
  simp only [seen]
  by_cases visit : visited.contains id = true
  · simp only [visit, if_true]
    exact .revisitedNode moves
  · simp only [visit]
    exact ⟨moves, same⟩

theorem RenumbersInOrder.arguments_agree (renumbers : RenumbersInOrder σ g g') (sound : g.Sound)
    (sound' : g'.Sound) {n n' : Node} (moves : Moves σ g g' n n') :
    Agree σ g g' (fun kids kids' => kids' = kids.map σ ∧ ∀ k ∈ kids, k < g.size)
      (g.arguments n) (g'.arguments n') := by
  have inside : ∀ k ∈ g.children n.id, k < g.size := fun k => sound.lt_size_of_mem_children
  have ordered := renumbers.orderSiblings?_eq sound sound' n.label inside
  rw [arguments, arguments, moves.label, moves.id,
    renumbers.children_eq sound sound' (lt_size_of_node? moves.found), ordered]
  cases order : g.orderSiblings? n.label (g.children n.id) with
  | none => exact .invalidChildArrangement moves
  | some kids =>
    have perm := perm_of_orderSiblings? order
    exact ⟨rfl, fun k hk => inside k (perm.mem_iff.mp hk)⟩

theorem RenumbersInOrder.checkDeclarations_agree (renumbers : RenumbersInOrder σ g g')
    (sound : g.Sound) (sound' : g'.Sound) {ids : List Nat} (inside : ∀ v ∈ ids, v < g.size) :
    Agree σ g g' (fun _ _ => True) (g.checkDeclarations ids)
      (g'.checkDeclarations (ids.map σ)) := by
  induction ids with
  | nil => exact trivial
  | cons id ids ih =>
    obtain ⟨hid, inside⟩ := List.forall_mem_cons.mp inside
    obtain ⟨n, n', found, found', _, moves⟩ := renumbers.exists_moves sound sound' hid
    have kids := renumbers.children_eq sound sound' hid
    rw [List.map_cons, checkDeclarations, checkDeclarations, kids, found, found']
    cases g.children id with
    | nil => exact ih inside
    | cons k ks =>
      simp only [List.map_cons, List.length_cons, List.length_map]
      exact .nonTerminalNameNode moves (ks.length + 1)

theorem RenumbersInOrder.checkArity_agree (renumbers : RenumbersInOrder σ g g')
    (sound : g.Sound) (sound' : g'.Sound) {n n' : Node} (moves : Moves σ g g' n n')
    {kids : List Nat} (inside : ∀ k ∈ kids, k < g.size) :
    Agree σ g g' (fun _ _ => True) (g.checkArity n kids) (g'.checkArity n' (kids.map σ)) := by
  rw [checkArity, checkArity, moves.label]
  cases Arity.ofLabel? n.label with
  | none => exact trivial
  | some arity =>
    simp only [List.length_map]
    by_cases admitted : arity.admits kids.length = true
    · by_cases quantifier : isQuantifier n.label = true
      · simp only [admitted, quantifier, Bool.not_true, Bool.false_eq_true, if_false, if_true,
          ← List.map_dropLast]
        exact renumbers.checkDeclarations_agree sound sound'
          fun k hk => inside k (kids.dropLast_sublist.subset hk)
      · simp only [admitted, quantifier, Bool.not_true, Bool.false_eq_true, if_false]
        exact trivial
    · simp only [admitted, Bool.not_false, if_true]
      exact .wrongSuccessorCount moves arity kids.length

/-! ## Readings -/

/-- The same formulas have been read, and the nodes visited are those visited before under new
ids. -/
inductive SameReading (σ : Nat → Nat) (g : Graph) {α : Type} : α × List Nat → α × List Nat → Prop
  | intro (a : α) (visited : List Nat) (inside : ∀ v ∈ visited, v < g.size) :
    SameReading σ g (a, visited) (a, visited.map σ)

theorem readAll_agree {read read' : Nat → List Nat → Except DecodeError (Formula × List Nat)}
    (step : ∀ {id visited}, id < g.size → (∀ v ∈ visited, v < g.size) →
      Agree σ g g' (SameReading σ g) (read id visited) (read' (σ id) (visited.map σ)))
    {ids visited : List Nat} (inside : ∀ v ∈ ids, v < g.size)
    (before : ∀ v ∈ visited, v < g.size) :
    Agree σ g g' (SameReading σ g) (readAll read ids visited)
      (readAll read' (ids.map σ) (visited.map σ)) := by
  induction ids generalizing visited with
  | nil => exact .intro [] visited before
  | cons id ids ih =>
    obtain ⟨hid, inside⟩ := List.forall_mem_cons.mp inside
    rw [List.map_cons, readAll, readAll]
    refine (step hid before).bind ?_
    rintro _ _ ⟨f, after, later⟩
    refine (ih inside later).bind ?_
    rintro _ _ ⟨fs, last, done⟩
    exact .intro (f :: fs) last done

/-- Both graphs are read alike, whatever goes wrong. The induction is on the fuel, which is the
same for both. -/
theorem RenumbersInOrder.read_agree (renumbers : RenumbersInOrder σ g g') (sound : g.Sound)
    (sound' : g'.Sound) (strict : Bool) {fuel id : Nat} {visited : List Nat} (hid : id < g.size)
    (before : ∀ v ∈ visited, v < g.size) :
    Agree σ g g' (SameReading σ g) (g.read strict fuel id visited)
      (g'.read strict fuel (σ id) (visited.map σ)) := by
  induction fuel generalizing id visited with
  | zero =>
    rw [read, read]
    refine (renumbers.enter_agree sound sound' hid before).bind fun n n' entered => ?_
    exact .revisitedNode entered.1
  | succ fuel ih =>
    rw [read, read]
    refine (renumbers.enter_agree sound sound' hid before).bind ?_
    rintro n n' ⟨moves, rfl⟩
    refine (renumbers.arguments_agree sound sound' moves).bind ?_
    rintro kids _ ⟨rfl, inside⟩
    have visited_inside : ∀ v ∈ n.id :: visited, v < g.size :=
      List.forall_mem_cons.mpr ⟨hid, before⟩
    have rest : Agree σ g g' (SameReading σ g)
        (readAll (g.read strict fuel) kids (n.id :: visited) >>=
          fun r => .ok (Formula.node n.label r.1, r.2))
        (readAll (g'.read strict fuel) (kids.map σ) (σ n.id :: visited.map σ) >>=
          fun r => .ok (Formula.node n'.label r.1, r.2)) := by
      refine (readAll_agree ih inside visited_inside).bind ?_
      rintro _ _ ⟨args, last, done⟩
      rw [moves.label]
      exact .intro (Formula.node n.label args) last done
    cases strict with
    | false => exact rest
    | true => exact (renumbers.checkArity_agree sound sound' moves inside).bind fun _ _ _ => rest

/-! ## Decoding -/

theorem RenumbersInOrder.startingNode_agree (renumbers : RenumbersInOrder σ g g')
    (sound : g.Sound) (sound' : g'.Sound) :
    Agree σ g g' (Moves σ g g') g.startingNode g'.startingNode := by
  have perm : (g'.startingNodes.map (·.id)).Perm ((g.startingNodes.map (·.id)).map σ) :=
    renumbers.ids_perm sound sound' (g.inDegree · == 0) (g'.inDegree · == 0) fun v hv => by
      rw [renumbers.inDegree_eq sound sound' hv]
  have member : ∀ {h : Graph} {n : Node}, h.Sound → n ∈ h.startingNodes → h.node? n.id = some n :=
    fun sound hn => sound.node?_of_mem (List.mem_filter.mp hn).1
  have length : g'.startingNodes.length = g.startingNodes.length := by
    simpa using perm.length_eq
  rw [startingNode, startingNode]
  match starts : g.startingNodes, starts' : g'.startingNodes with
  | [], [] => exact .noStartingNode
  | [n], [n'] =>
    have id : n'.id = σ n.id := by simpa [starts, starts'] using perm
    exact renumbers.moves (member sound (by simp [starts])) (member sound' (by simp [starts'])) id
  | _ :: _ :: _, _ :: _ :: _ => exact .multipleStartingNodes ..
  | [], _ :: _ | _ :: _, [] => simp [starts, starts'] at length
  | [_], _ :: _ :: _ | _ :: _ :: _, [_] => simp [starts, starts'] at length

theorem RenumbersInOrder.size_eq (renumbers : RenumbersInOrder σ g g') : g'.size = g.size := by
  have all := renumbers.renumbers.perm_range (List.Perm.refl (List.range g.size))
  simpa using all.length_eq.symm

theorem RenumbersInOrder.decode_agree (renumbers : RenumbersInOrder σ g g') (sound : g.Sound)
    (sound' : g'.Sound) (strict : Bool) :
    Agree σ g g' (fun t t' => t' = t) (g.decode strict) (g'.decode strict) := by
  rw [decode, decode, renumbers.size_eq]
  refine (renumbers.startingNode_agree sound sound').bind fun n n' moves => ?_
  have hid := lt_size_of_node? moves.found
  rw [moves.id]
  refine (renumbers.read_agree sound sound' strict hid (List.forall_mem_nil _)).bind ?_
  rintro _ _ ⟨t, visited, inside⟩
  have left : (g'.nodes.filter (!(visited.map σ).contains ·.id)).length =
      (g.nodes.filter (!visited.contains ·.id)).length := by
    have perm := renumbers.ids_perm sound sound' (!visited.contains ·)
      (!(visited.map σ).contains ·) fun v hv => by
        rw [renumbers.renumbers.contains_eq inside (List.Perm.refl _) hv]
    simpa using perm.length_eq
  simp only [left]
  cases (g.nodes.filter (!visited.contains ·.id)).length with
  | zero => exact rfl
  | succ count => exact .unreachableNodes (count + 1)

/-- Two operands with one argument in common, which an arc enters twice. -/
def shared : Graph :=
  [⟨0, 1, .ast⟩, ⟨0, 2, .ast⟩, ⟨1, 3, .ast⟩, ⟨2, 3, .ast⟩].foldl .link
    (["&", "p", "q", "X"].foldl .addNode .empty)

/-- The same graph with its ids turned round, as it is loaded from nodes of one kind only. -/
def sharedReversed : Graph where
  nodes := [⟨0, .var, "X"⟩, ⟨1, .var, "q"⟩, ⟨2, .var, "p"⟩, ⟨3, .var, "&"⟩]
  edges := [⟨3, 2, .ast⟩, ⟨3, 1, .ast⟩, ⟨2, 0, .ast⟩, ⟨1, 0, .ast⟩]
  outgoing := [[], [3], [2], [0, 1]]
  incoming := [[2, 3], [1], [0], []]

theorem built_shared : shared.Built :=
  (Built.empty.foldl_addNode _).foldl_link (by decide)

theorem built_sharedReversed : sharedReversed.Built := by
  have loaded : ofStored sharedReversed.nodes sharedReversed.edges = .ok sharedReversed := rfl
  exact .stored loaded

theorem renumbersInOrder_shared : RenumbersInOrder (3 - ·) shared sharedReversed where
  bijOn := by
    change Set.BijOn (3 - ·) {v | v < 4} {v | v < 4}
    refine ⟨fun v hv => ?_, fun u hu v hv same => ?_, fun v hv => ⟨3 - v, ?_, ?_⟩⟩ <;>
      simp only [Set.mem_ofPred_eq] at * <;> omega
  label := by
    intro v n found
    have labels : ∀ v < 4, (sharedReversed.node? (3 - v)).map (·.label) =
        (shared.node? v).map (·.label) := by decide
    have same := labels v (lt_size_of_node? found)
    rwa [found, Option.map_some, Option.map_eq_some_iff] at same
  edges := rfl

/-- Decoding does not depend on ids and stored kinds: under new ids a graph is decoded to the same
formula, or it is refused for the same reason at the nodes that correspond. -/
theorem decode_renumbered (built : g.Built) (built' : g'.Built)
    (renumbers : RenumbersInOrder σ g g') (strict : Bool) :
    (∀ t, g.decode strict = .ok t ↔ g'.decode strict = .ok t) ∧
      ∀ e, g.decode strict = .error e →
        ∃ e', g'.decode strict = .error e' ∧ Corresponds σ g g' e e' := by
  have agree := renumbers.decode_agree built.sound built'.sound strict
  cases result : g.decode strict with
  | ok t =>
    cases result' : g'.decode strict with
    | ok t' =>
      rw [result, result'] at agree
      obtain rfl : t' = t := agree
      simp
    | error e' =>
      rw [result, result'] at agree
      exact agree.elim
  | error e =>
    cases result' : g'.decode strict with
    | ok t' =>
      rw [result, result'] at agree
      exact agree.elim
    | error e' =>
      rw [result, result'] at agree
      have same : Corresponds σ g g' e e' := agree
      simpa using same

/-- Both graphs are refused for the argument that is reached twice. -/
theorem decode_renumbered_shared :
    RenumbersInOrder (3 - ·) shared sharedReversed ∧
      shared.decode false = .error (.revisitedNode ⟨3, .var, "X"⟩) ∧
      ∃ e', sharedReversed.decode false = .error e' ∧
        Corresponds (3 - ·) shared sharedReversed (.revisitedNode ⟨3, .var, "X"⟩) e' :=
  ⟨renumbersInOrder_shared, rfl,
    (decode_renumbered built_shared built_sharedReversed renumbersInOrder_shared false).2 _ rfl⟩

end

end FolGraph.Graph
