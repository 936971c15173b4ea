import FolGraph.Proofs.Graph.Spelling

/-!
# Enough fuel

A reading runs on fuel, one unit for each node on the path to a leaf. `read_eq_of_enough` says that
the fuel decides nothing: any two amounts that cover the nodes not visited yet give the same result,
whether it is a formula or an error. So a reading that follows a cycle ends because it meets a
visited node, not because the fuel runs out.
-/

namespace FolGraph.Graph

/-- What happens at a node before its arguments are read: it is entered, its arguments are put in
order, and a strict reading holds it to its arity. -/
def expand (g : Graph) (strict : Bool) (id : Nat) (visited : List Nat) :
    Except DecodeError (Node × List Nat) := do
  let n ← g.enter id visited
  let kids ← g.arguments n
  if strict then g.checkArity n kids
  .ok (n, kids)

theorem expand_eq_ok {g : Graph} {strict : Bool} {id : Nat} {visited kids : List Nat} {n : Node}
    (h : g.expand strict id visited = .ok (n, kids)) :
    g.node? id = some n ∧ id ∉ visited ∧ g.arguments n = .ok kids := by
  obtain ⟨n', entered, h⟩ := bind_eq_ok.mp h
  obtain ⟨kids', order, h⟩ := bind_eq_ok.mp h
  obtain ⟨found, fresh⟩ := enter_eq_ok.mp entered
  obtain ⟨rfl, rfl⟩ : n' = n ∧ kids' = kids := by
    cases strict with
    | false => simpa using h
    | true =>
      obtain ⟨_, _, h⟩ := bind_eq_ok.mp h
      simpa using h
  exact ⟨found, fresh, order⟩

/-- A reading expands a node and reads its arguments. -/
theorem read_succ (g : Graph) (strict : Bool) (fuel id : Nat) (visited : List Nat) :
    g.read strict (fuel + 1) id visited =
      g.expand strict id visited >>= fun r =>
        readAll (g.read strict fuel) r.2 (id :: visited) >>= fun rest =>
          .ok (.node r.1.label rest.1, rest.2) := by
  rw [read, expand]
  cases g.enter id visited with
  | error e => rfl
  | ok n =>
    cases order : g.arguments n with
    | error e => simp [order, bind, Except.bind]
    | ok kids =>
      cases strict with
      | false => simp [order, bind, Except.bind]
      | true => cases check : g.checkArity n kids <;> simp [order, check, bind, Except.bind]

/-- A list of different nodes of a graph. -/
structure Visits (g : Graph) (visited : List Nat) : Prop where
  nodup : visited.Nodup
  inside : ∀ v ∈ visited, v < g.size

theorem Visits.nil (g : Graph) : g.Visits [] := ⟨List.nodup_nil, by simp⟩

theorem Visits.cons {g : Graph} {visited : List Nat} (visits : g.Visits visited) {id : Nat}
    (inside : id < g.size) (fresh : id ∉ visited) : g.Visits (id :: visited) :=
  ⟨List.nodup_cons.mpr ⟨fresh, visits.nodup⟩, by simpa using ⟨inside, visits.inside⟩⟩

theorem Visits.length_le {g : Graph} {visited : List Nat} (visits : g.Visits visited) :
    visited.length ≤ g.size := by
  have within : visited ⊆ List.range g.size := fun v hv => List.mem_range.mpr (visits.inside v hv)
  simpa using (List.subperm_of_subset visits.nodup within).length_le

/-- If as many nodes were visited as there are, all were. -/
theorem Visits.mem_of_size_le {g : Graph} {visited : List Nat} (visits : g.Visits visited)
    (full : g.size ≤ visited.length) {id : Nat} (inside : id < g.size) : id ∈ visited := by
  by_contra fresh
  have length := (visits.cons inside fresh).length_le
  rw [List.length_cons] at length
  omega

/-- A reading adds different nodes to those visited. -/
theorem visits_of_read {g : Graph} {strict : Bool} {fuel id : Nat} {visited last : List Nat}
    {f : Formula} (visits : g.Visits visited)
    (h : g.read strict fuel id visited = .ok (f, last)) :
    g.Visits last ∧ visited.length ≤ last.length := by
  obtain ⟨ids, spells, rfl, nodup, apart⟩ := spells_of_read h
  refine ⟨⟨(List.nodup_reverse.mpr nodup).append visits.nodup ?_, fun v hv => ?_⟩, by simp⟩
  · exact List.disjoint_reverse_left.mpr apart
  · rcases List.mem_append.mp hv with new | old
    · exact spells.lt_size v (List.mem_reverse.mp new)
    · exact visits.inside v old

theorem lt_size_of_arguments {g : Graph} (sound : g.Sound) {n : Node} {kids : List Nat}
    (order : g.arguments n = .ok kids) : ∀ c ∈ kids, c < g.size := by
  intro c hc
  have same := perm_of_orderSiblings? (arguments_eq_ok.mp order)
  exact sound.lt_size_of_mem_children (same.mem_iff.mp hc)

theorem enter_of_mem {g : Graph} {id : Nat} {visited : List Nat} {n : Node}
    (found : g.node? id = some n) (seen : id ∈ visited) :
    g.enter id visited = .error (.revisitedNode n) := by
  simp [enter, found, seen]

theorem readAll_congr {g : Graph} {strict : Bool} {fuel fuel' : Nat}
    (step : ∀ {id visited}, g.Visits visited → id < g.size → g.size ≤ fuel + visited.length →
      g.read strict fuel' id visited = g.read strict fuel id visited)
    {kids visited : List Nat} (visits : g.Visits visited) (inside : ∀ c ∈ kids, c < g.size)
    (enough : g.size ≤ fuel + visited.length) :
    readAll (g.read strict fuel') kids visited = readAll (g.read strict fuel) kids visited := by
  induction kids generalizing visited with
  | nil => rfl
  | cons id kids ih =>
    obtain ⟨here, rest⟩ := List.forall_mem_cons.mp inside
    rw [readAll, readAll, step visits here enough]
    cases read : g.read strict fuel id visited with
    | error e => rfl
    | ok r =>
      -- the nodes visited only become more, so the fuel is enough for the other arguments too
      obtain ⟨visits', longer⟩ := visits_of_read visits read
      change (readAll _ kids r.2 >>= _) = (readAll _ kids r.2 >>= _)
      rw [ih visits' rest (by omega)]

/-- Another unit of fuel changes nothing. -/
theorem read_succ_eq {g : Graph} (sound : g.Sound) (strict : Bool) {fuel id : Nat}
    {visited : List Nat} (visits : g.Visits visited) (inside : id < g.size)
    (enough : g.size ≤ fuel + visited.length) :
    g.read strict (fuel + 1) id visited = g.read strict fuel id visited := by
  induction fuel generalizing id visited with
  | zero =>
    -- all nodes have been visited, so this one is refused, with or without fuel
    obtain ⟨n, rfl, found⟩ := sound.exists_node? inside
    have seen := visits.mem_of_size_le (by omega) inside
    rw [read, read, enter_of_mem found seen]
    rfl
  | succ fuel ih =>
    rw [read_succ, read_succ]
    cases expanded : g.expand strict id visited with
    | error e => rfl
    | ok r =>
      obtain ⟨found, fresh, order⟩ := expand_eq_ok expanded
      have enough' : g.size ≤ fuel + (id :: visited).length := by
        rw [List.length_cons]
        omega
      have rest := readAll_congr ih (visits.cons inside fresh) (lt_size_of_arguments sound order)
        enough'
      change (readAll _ r.2 _ >>= _) = (readAll _ r.2 _ >>= _)
      rw [rest]

theorem read_eq_of_enough {g : Graph} (sound : g.Sound) (strict : Bool) {m n id : Nat}
    {visited : List Nat} (visits : g.Visits visited) (inside : id < g.size)
    (enough : g.size ≤ m + visited.length) (more : m ≤ n) :
    g.read strict n id visited = g.read strict m id visited := by
  induction more with
  | refl => rfl
  | @step n more ih =>
    have still : g.size ≤ n + visited.length := Nat.le_trans enough (Nat.add_le_add_right more _)
    rw [← ih, read_succ_eq sound strict visits inside still]

end FolGraph.Graph
