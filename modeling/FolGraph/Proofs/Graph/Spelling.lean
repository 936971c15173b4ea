import FolGraph.Graph.Decode
import FolGraph.Proofs.Formula.Position
import FolGraph.Proofs.Graph.Arrangement
import FolGraph.Proofs.Outcome

/-!
# Spelling

A node of a graph spells a formula if its label is that of the formula and its arguments, in their
order, spell the arguments. `Spells` also records the nodes that are read on the way.
`decode_eq_ok_iff` says that decoding, which marks nodes as visited and runs on fuel, returns
exactly the formula that the only starting node spells when every node is read once.
-/

namespace FolGraph.Graph

mutual

/-- The node `id` spells a formula; `ids` are the nodes read for it, in pre-order. -/
inductive Spells (g : Graph) : Nat → Formula → List Nat → Prop where
  | node {id : Nat} {n : Node} {kids ids : List Nat} {args : List Formula}
      (found : g.node? id = some n) (ordered : g.arguments n = .ok kids)
      (rest : SpellsAll g kids args ids) : Spells g id (.node n.label args) (id :: ids)

/-- The nodes of a list spell the formulas of a list one by one. -/
inductive SpellsAll (g : Graph) : List Nat → List Formula → List Nat → Prop where
  | nil : SpellsAll g [] [] []
  | cons {id : Nat} {f : Formula} {kids ids rest : List Nat} {fs : List Formula}
      (first : Spells g id f ids) (others : SpellsAll g kids fs rest) :
      SpellsAll g (id :: kids) (f :: fs) (ids ++ rest)

end

/-! ## One step of a reading -/

theorem enter_eq_ok {g : Graph} {id : Nat} {visited : List Nat} {n : Node} :
    g.enter id visited = .ok n ↔ g.node? id = some n ∧ id ∉ visited := by
  unfold enter
  cases g.node? id with
  | none => simp
  | some m => by_cases h : id ∈ visited <;> simp [h]

theorem arguments_eq_ok {g : Graph} {n : Node} {kids : List Nat} :
    g.arguments n = .ok kids ↔ g.orderSiblings? n.label (g.children n.id) = some kids := by
  unfold arguments
  cases g.orderSiblings? n.label (g.children n.id) <;> simp

theorem readAll_cons_eq_ok {ε : Type} {read : Nat → List Nat → Except ε (Formula × List Nat)}
    {id : Nat} {ids visited last : List Nat} {fs : List Formula} :
    readAll read (id :: ids) visited = .ok (fs, last) ↔
      ∃ f after rest, read id visited = .ok (f, after) ∧
        readAll read ids after = .ok (rest, last) ∧ fs = f :: rest := by
  rw [readAll, bind_eq_ok]
  constructor
  · rintro ⟨⟨f, after⟩, first, h⟩
    obtain ⟨⟨rest, last'⟩, others, h⟩ := bind_eq_ok.mp h
    cases h
    exact ⟨f, after, rest, first, others, rfl⟩
  · rintro ⟨f, after, rest, first, others, rfl⟩
    exact ⟨(f, after), first, bind_eq_ok.mpr ⟨(rest, last), others, rfl⟩⟩

/-- A reading of a node enters it, orders its arguments and reads them; a strict reading also holds
it to its arity. -/
theorem read_succ_eq_ok {g : Graph} {strict : Bool} {fuel id : Nat} {visited last : List Nat}
    {f : Formula} :
    g.read strict (fuel + 1) id visited = .ok (f, last) ↔
      ∃ n kids args, g.node? id = some n ∧ id ∉ visited ∧ g.arguments n = .ok kids ∧
        (strict = true → g.checkArity n kids = .ok ()) ∧
        readAll (g.read strict fuel) kids (id :: visited) = .ok (args, last) ∧
        f = .node n.label args := by
  have checked : ∀ {n : Node} {kids : List Nat} {x : Except DecodeError (Formula × List Nat)},
      (do
        if strict then g.checkArity n kids
        x) = .ok (f, last) ↔
        (strict = true → g.checkArity n kids = .ok ()) ∧ x = .ok (f, last) := by
    intro n kids x
    cases strict with
    | false => simp
    | true =>
      simp only [if_true, bind_eq_ok, forall_const]
      constructor
      · rintro ⟨_, check, rest⟩
        exact ⟨check, rest⟩
      · rintro ⟨check, rest⟩
        exact ⟨(), check, rest⟩
  rw [read, bind_eq_ok]
  constructor
  · rintro ⟨n, entered, h⟩
    obtain ⟨found, fresh⟩ := enter_eq_ok.mp entered
    obtain ⟨kids, ordered, h⟩ := bind_eq_ok.mp h
    obtain ⟨check, h⟩ := checked.mp h
    obtain ⟨⟨args, last'⟩, rest, h⟩ := bind_eq_ok.mp h
    cases h
    exact ⟨n, kids, args, found, fresh, ordered, check, rest, rfl⟩
  · rintro ⟨n, kids, args, found, fresh, ordered, check, rest, rfl⟩
    refine ⟨n, enter_eq_ok.mpr ⟨found, fresh⟩, bind_eq_ok.mpr ⟨kids, ordered, ?_⟩⟩
    refine checked.mpr ⟨check, ?_⟩
    exact bind_eq_ok.mpr ⟨(args, last), rest, rfl⟩

/-! ## Readings and spellings -/

theorem spellsAll_of_readAll {g : Graph} {read : Nat → List Nat → Except DecodeError _}
    (sound : ∀ {id visited f last}, read id visited = .ok (f, last) →
      ∃ ids, g.Spells id f ids ∧ last = ids.reverse ++ visited ∧ ids.Nodup ∧
        ids.Disjoint visited)
    {kids visited last : List Nat} {fs : List Formula}
    (h : readAll read kids visited = .ok (fs, last)) :
    ∃ ids, g.SpellsAll kids fs ids ∧ last = ids.reverse ++ visited ∧ ids.Nodup ∧
      ids.Disjoint visited := by
  induction kids generalizing visited fs with
  | nil =>
    cases h
    exact ⟨[], .nil, rfl, List.nodup_nil, by simp⟩
  | cons id kids ih =>
    obtain ⟨f, after, rest, first, others, rfl⟩ := readAll_cons_eq_ok.mp h
    obtain ⟨ids, spells, rfl, nodup, apart⟩ := sound first
    obtain ⟨more, spellsAll, rfl, nodup', apart'⟩ := ih others
    rw [List.disjoint_append_right, List.disjoint_reverse_right] at apart'
    refine ⟨ids ++ more, .cons spells spellsAll, ?_, ?_, ?_⟩
    · rw [List.reverse_append, List.append_assoc]
    · exact nodup.append nodup' (List.disjoint_symm apart'.1)
    · exact List.disjoint_append_left.mpr ⟨apart, apart'.2⟩

/-- What is read is spelled, by nodes that were not visited before. -/
theorem spells_of_read {g : Graph} {strict : Bool} {fuel id : Nat} {visited last : List Nat}
    {f : Formula} (h : g.read strict fuel id visited = .ok (f, last)) :
    ∃ ids, g.Spells id f ids ∧ last = ids.reverse ++ visited ∧ ids.Nodup ∧
      ids.Disjoint visited := by
  induction fuel generalizing id visited f last with
  | zero =>
    obtain ⟨_, _, h⟩ := bind_eq_ok.mp h
    cases h
  | succ fuel ih =>
    obtain ⟨n, kids, args, found, fresh, ordered, _, rest, rfl⟩ := read_succ_eq_ok.mp h
    obtain ⟨ids, spells, rfl, nodup, apart⟩ := spellsAll_of_readAll ih rest
    rw [List.disjoint_cons_right] at apart
    refine ⟨id :: ids, .node found ordered spells, ?_, ?_, ?_⟩
    · rw [List.reverse_cons, List.append_assoc, List.singleton_append]
    · exact List.nodup_cons.mpr ⟨apart.1, nodup⟩
    · exact List.disjoint_cons_left.mpr ⟨fresh, apart.2⟩

mutual

/-- What is spelled is read, if none of its nodes was visited and the fuel lasts. -/
theorem Spells.read_eq {g : Graph} {id : Nat} {f : Formula} {ids : List Nat} :
    g.Spells id f ids → ∀ {fuel : Nat} {visited : List Nat}, f.height ≤ fuel → ids.Nodup →
      ids.Disjoint visited → g.read false fuel id visited = .ok (f, ids.reverse ++ visited)
  | @Spells.node _ _ _ _ ids _ found ordered rest, fuel, visited, enough, nodup, apart => by
    cases fuel with
    | zero => simp [Formula.height] at enough
    | succ fuel =>
      rw [Formula.height] at enough
      obtain ⟨new, nodup⟩ := List.nodup_cons.mp nodup
      obtain ⟨fresh, apart⟩ := List.disjoint_cons_left.mp apart
      have read : readAll (g.read false fuel) _ _ = _ :=
        rest.readAll_eq (by omega) nodup (List.disjoint_cons_right.mpr ⟨new, apart⟩)
      refine read_succ_eq_ok.mpr ⟨_, _, _, found, fresh, ordered, by simp, ?_, rfl⟩
      rw [read, List.reverse_cons, List.append_assoc, List.singleton_append]

theorem SpellsAll.readAll_eq {g : Graph} {kids : List Nat} {fs : List Formula} {ids : List Nat} :
    g.SpellsAll kids fs ids → ∀ {fuel : Nat} {visited : List Nat}, Formula.heightAll fs ≤ fuel →
      ids.Nodup → ids.Disjoint visited →
      readAll (g.read false fuel) kids visited = .ok (fs, ids.reverse ++ visited)
  | .nil, _, _, _, _, _ => rfl
  | @SpellsAll.cons _ _ _ _ ids rest _ first others, fuel, visited, enough, nodup, apart => by
    rw [Formula.heightAll] at enough
    obtain ⟨nodup, nodup', between⟩ := List.nodup_append'.mp nodup
    obtain ⟨apart, apart'⟩ := List.disjoint_append_left.mp apart
    have later : rest.Disjoint (ids.reverse ++ visited) := List.disjoint_append_right.mpr
      ⟨List.disjoint_reverse_right.mpr (List.disjoint_symm between), apart'⟩
    have read : g.read false fuel _ _ = _ := first.read_eq (by omega) nodup apart
    have reads : readAll (g.read false fuel) _ _ = _ := others.readAll_eq (by omega) nodup' later
    refine readAll_cons_eq_ok.mpr ⟨_, _, _, read, ?_, rfl⟩
    rw [reads, List.reverse_append, List.append_assoc]

end

/-! ## Decoding -/

mutual

theorem Spells.length_eq {g : Graph} {id : Nat} {f : Formula} {ids : List Nat} :
    g.Spells id f ids → ids.length = f.size
  | .node _ _ rest => by
    have := rest.length_eq
    simp only [List.length_cons, Formula.size]
    omega

theorem SpellsAll.length_eq {g : Graph} {kids : List Nat} {fs : List Formula} {ids : List Nat} :
    g.SpellsAll kids fs ids → ids.length = Formula.sizeAll fs
  | .nil => rfl
  | .cons first others => by
    have := first.length_eq
    have := others.length_eq
    simp only [List.length_append, Formula.sizeAll]
    omega

end

theorem SpellsAll.length_eq_length {g : Graph} {kids ids : List Nat} {fs : List Formula}
    (h : g.SpellsAll kids fs ids) : kids.length = fs.length := by
  induction fs generalizing kids ids with
  | nil =>
    cases h
    rfl
  | cons f fs ih =>
    cases h with
    | cons first others => rw [List.length_cons, List.length_cons, ih others]

mutual

/-- What holds of every node that is found and whose arguments have an order holds of all nodes
that are read. -/
theorem Spells.forall_mem {g : Graph} {P : Nat → Prop}
    (step : ∀ {id n kids}, g.node? id = some n → g.arguments n = .ok kids → P id)
    {id : Nat} {f : Formula} {ids : List Nat} : g.Spells id f ids → ∀ x ∈ ids, P x
  | .node found ordered rest => by
    intro x hx
    rcases List.mem_cons.mp hx with rfl | hx
    · exact step found ordered
    · exact rest.forall_mem step x hx

theorem SpellsAll.forall_mem {g : Graph} {P : Nat → Prop}
    (step : ∀ {id n kids}, g.node? id = some n → g.arguments n = .ok kids → P id)
    {kids : List Nat} {fs : List Formula} {ids : List Nat} :
    g.SpellsAll kids fs ids → ∀ x ∈ ids, P x
  | .nil => by simp
  | .cons first others => by
    intro x hx
    rcases List.mem_append.mp hx with hx | hx
    · exact first.forall_mem step x hx
    · exact others.forall_mem step x hx

end

mutual

/-- What is spelled in a graph is spelled wherever the same nodes have the same arguments. -/
theorem Spells.of_arguments {g g' : Graph} (nodes : ∀ id, g'.node? id = g.node? id)
    (same : ∀ {id n kids}, g.node? id = some n → g.arguments n = .ok kids →
      g'.arguments n = .ok kids) {id : Nat} {f : Formula} {ids : List Nat} :
    g.Spells id f ids → g'.Spells id f ids
  | .node found ordered rest =>
    .node ((nodes id).trans found) (same found ordered) (rest.of_arguments nodes same)

theorem SpellsAll.of_arguments {g g' : Graph} (nodes : ∀ id, g'.node? id = g.node? id)
    (same : ∀ {id n kids}, g.node? id = some n → g.arguments n = .ok kids →
      g'.arguments n = .ok kids) {kids : List Nat} {fs : List Formula} {ids : List Nat} :
    g.SpellsAll kids fs ids → g'.SpellsAll kids fs ids
  | .nil => .nil
  | .cons first others => .cons (first.of_arguments nodes same) (others.of_arguments nodes same)

end

theorem Spells.lt_size {g : Graph} {id : Nat} {f : Formula} {ids : List Nat}
    (h : g.Spells id f ids) : ∀ x ∈ ids, x < g.size :=
  h.forall_mem fun found _ => lt_size_of_node? found

/-- No arc of any role enters a node. -/
def Unentered (g : Graph) (v : Nat) : Prop := ∀ e ∈ g.edges, e.target ≠ v

theorem Sound.map_id_nodes {g : Graph} (sound : g.Sound) :
    g.nodes.map (·.id) = List.range g.size := by
  apply List.ext_getElem (by simp [size])
  intro i hi _
  rw [List.length_map] at hi
  rw [List.getElem_map, List.getElem_range, sound.ids i _ (List.getElem?_eq_getElem hi)]

theorem Sound.node?_of_mem {g : Graph} (sound : g.Sound) {n : Node} (hn : n ∈ g.nodes) :
    g.node? n.id = some n := by
  obtain ⟨i, found⟩ := List.mem_iff_getElem?.mp hn
  rw [sound.ids i n found]
  exact found

theorem mem_startingNodes {g : Graph} (sound : g.Sound) {n : Node} :
    n ∈ g.startingNodes ↔ n ∈ g.nodes ∧ g.Unentered n.id := by
  simp [startingNodes, Unentered, sound.inDegree_eq, List.countP_eq_zero]

theorem startingNode_eq_ok {g : Graph} {n : Node} :
    g.startingNode = .ok n ↔ g.startingNodes = [n] := by
  unfold startingNode
  split <;> simp_all

/-- The starting node is the only one that no arc enters. -/
theorem startingNode_eq_ok_iff {g : Graph} (sound : g.Sound) {n : Node} :
    g.startingNode = .ok n ↔
      g.node? n.id = some n ∧ ∀ v < g.size, (g.Unentered v ↔ v = n.id) := by
  have distinct : g.startingNodes.Nodup := by
    refine List.Nodup.filter _ (List.Nodup.of_map (·.id) ?_)
    rw [sound.map_id_nodes]
    exact List.nodup_range
  rw [startingNode_eq_ok, ← List.perm_singleton,
    List.perm_ext_iff_of_nodup distinct (List.nodup_singleton n)]
  simp only [mem_startingNodes sound, List.mem_singleton]
  constructor
  · intro h
    have self := (h n).mpr rfl
    refine ⟨sound.node?_of_mem self.1, fun v hv => ?_⟩
    obtain ⟨m, id, found⟩ := sound.exists_node? hv
    constructor
    · intro free
      rw [← (h m).mp ⟨List.mem_of_getElem? found, by rwa [id]⟩, id]
    · rintro rfl
      exact self.2
  · rintro ⟨found, only⟩ m
    have bound := lt_size_of_node? found
    constructor
    · rintro ⟨hm, free⟩
      have found' := sound.node?_of_mem hm
      have id := (only m.id (lt_size_of_node? found')).mp free
      rw [id] at found'
      exact Option.some.inj (found'.symm.trans found)
    · rintro rfl
      exact ⟨List.mem_of_getElem? found, (only _ bound).mpr rfl⟩

theorem length_unvisited_eq_zero {g : Graph} (sound : g.Sound) {visited : List Nat} :
    (g.nodes.filter (!visited.contains ·.id)).length = 0 ↔ ∀ v < g.size, v ∈ visited := by
  rw [List.length_eq_zero_iff, List.filter_eq_nil_iff]
  constructor
  · intro h v hv
    obtain ⟨n, rfl, found⟩ := sound.exists_node? hv
    simpa using h n (List.mem_of_getElem? found)
  · intro h n hn
    simpa using h n.id (lt_size_of_node? (sound.node?_of_mem hn))

theorem perm_range_of_nodup {ids : List Nat} {n : Nat} (nodup : ids.Nodup)
    (inside : ∀ v ∈ ids, v < n) (all : ∀ v < n, v ∈ ids) : ids.Perm (List.range n) := by
  rw [List.perm_ext_iff_of_nodup nodup List.nodup_range]
  intro v
  rw [List.mem_range]
  exact ⟨inside v, all v⟩

/-- What is decoded, strictly or not, is spelled by the starting node, reading every node once. -/
theorem exists_spells_of_decode {g : Graph} (sound : g.Sound) {strict : Bool} {f : Formula}
    (h : g.decode strict = .ok f) :
    ∃ root ids, g.startingNode = .ok root ∧ g.Spells root.id f ids ∧
      ids.Perm (List.range g.size) := by
  rw [decode, bind_eq_ok] at h
  obtain ⟨root, start, h⟩ := h
  obtain ⟨⟨f', visited⟩, read, h⟩ := bind_eq_ok.mp h
  obtain ⟨ids, spells, rfl, nodup, _⟩ := spells_of_read read
  simp only at h
  split at h
  case h_2 => cases h
  case h_1 none =>
    cases h
    refine ⟨root, ids, start, spells, perm_range_of_nodup nodup spells.lt_size fun v hv => ?_⟩
    simpa using (length_unvisited_eq_zero sound).mp none v hv

/-- Decoding returns the formula that the only starting node spells, reading every node once. -/
theorem decode_eq_ok_iff {g : Graph} (sound : g.Sound) {f : Formula} :
    g.decode false = .ok f ↔
      ∃ root ids, g.startingNode = .ok root ∧ g.Spells root.id f ids ∧
        ids.Perm (List.range g.size) := by
  constructor
  · exact exists_spells_of_decode sound
  · rintro ⟨root, ids, start, spells, all⟩
    have nodup : ids.Nodup := all.nodup_iff.mpr List.nodup_range
    have enough : f.height ≤ g.size := by
      refine Nat.le_trans f.height_le_size ?_
      rw [← spells.length_eq, all.length_eq, List.length_range]
    have read := spells.read_eq enough nodup (List.disjoint_nil_right ids)
    have none : (g.nodes.filter (!(ids.reverse ++ []).contains ·.id)).length = 0 := by
      rw [length_unvisited_eq_zero sound]
      intro v hv
      simpa using all.mem_iff.mpr (List.mem_range.mpr hv)
    rw [decode, bind_eq_ok]
    refine ⟨root, start, bind_eq_ok.mpr ⟨_, read, ?_⟩⟩
    simp only [none]

/-- A strict reading returns what a reading that is not strict returns. -/
theorem decode_false_of_decode {g : Graph} (sound : g.Sound) {strict : Bool} {f : Formula}
    (h : g.decode strict = .ok f) : g.decode false = .ok f :=
  (decode_eq_ok_iff sound).mpr (exists_spells_of_decode sound h)

end FolGraph.Graph
