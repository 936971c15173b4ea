import FolGraph.Graph.Siblings
import Mathlib.Data.List.Nodup
import Mathlib.Data.List.Perm.Subperm

/-!
# Paths of sibling arcs

`pathOrder?` looks for the head that no arc enters and follows the arcs from there.
`pathOrder?_eq_some_iff` says without any search what it finds: a list of all positions such that
the given arcs are exactly the arcs from each position of the list to the next one.
-/

namespace FolGraph.Graph

/-- The `ncs` arcs from each node of a list to the next one. -/
def chainArcs : List Nat → List Edge
  | i :: j :: rest => ⟨i, j, .ncs⟩ :: chainArcs (j :: rest)
  | _ => []

theorem mem_chainArcs {path : List Nat} {e : Edge} :
    e ∈ chainArcs path ↔
      ∃ k, path[k]? = some e.source ∧ path[k + 1]? = some e.target ∧ e.role = .ncs := by
  induction path with
  | nil => simp [chainArcs]
  | cons i path ih =>
    cases path with
    | nil => simp [chainArcs]
    | cons j rest =>
      rw [chainArcs, List.mem_cons, ih]
      constructor
      · rintro (rfl | ⟨k, h⟩)
        · exact ⟨0, rfl, rfl, rfl⟩
        · exact ⟨k + 1, h⟩
      · rintro ⟨k, hs, ht, hr⟩
        cases k with
        | zero =>
          obtain ⟨s, t, r⟩ := e
          simp_all
        | succ k => exact Or.inr ⟨k, hs, ht, hr⟩

theorem map_source_chainArcs (path : List Nat) :
    (chainArcs path).map (·.source) = path.dropLast := by
  induction path with
  | nil => rfl
  | cons i path ih =>
    cases path with
    | nil => rfl
    | cons j rest => rw [chainArcs, List.map_cons, ih, List.dropLast_cons_cons]

theorem map_target_chainArcs (path : List Nat) :
    (chainArcs path).map (·.target) = path.tail := by
  induction path with
  | nil => rfl
  | cons i path ih =>
    cases path with
    | nil => rfl
    | cons j rest => rw [chainArcs, List.map_cons, ih, List.tail_cons, List.tail_cons]

theorem length_chainArcs (path : List Nat) : (chainArcs path).length = path.length - 1 := by
  rw [← List.length_map (f := Edge.target), map_target_chainArcs, List.length_tail]

theorem role_of_mem_chainArcs {path : List Nat} {e : Edge} (h : e ∈ chainArcs path) :
    e.role = .ncs := by
  obtain ⟨_, _, _, role⟩ := mem_chainArcs.mp h
  exact role

theorem nodup_chainArcs {path : List Nat} (h : path.Nodup) : (chainArcs path).Nodup := by
  apply List.Nodup.of_map Edge.target
  rw [map_target_chainArcs]
  exact h.tail

/-- Renaming the nodes of a path renames the ends of its arcs. -/
theorem chainArcs_map (f : Nat → Nat) (path : List Nat) :
    chainArcs (path.map f) = (chainArcs path).map fun e => ⟨f e.source, f e.target, e.role⟩ := by
  induction path with
  | nil => rfl
  | cons i path ih =>
    cases path with
    | nil => rfl
    | cons j rest =>
      simp only [List.map_cons, chainArcs] at ih ⊢
      rw [ih]

theorem mem_of_nextOf?_eq_some {arcs : List Edge} {i j : Nat} (h : nextOf? arcs i = some j) :
    ∃ e ∈ arcs, e.source = i ∧ e.target = j := by
  obtain ⟨e, found, rfl⟩ := Option.map_eq_some_iff.mp h
  have source := List.find?_some found
  exact ⟨e, List.mem_of_find?_eq_some found, by simpa using source, rfl⟩

theorem nextOf?_eq_some {arcs : List Edge} (sources : (arcs.map (·.source)).Nodup) {e : Edge}
    (he : e ∈ arcs) : nextOf? arcs e.source = some e.target := by
  cases found : arcs.find? (·.source == e.source) with
  | none =>
    have := List.find?_eq_none.mp found e he
    simp at this
  | some e' =>
    have source : e'.source = e.source := by simpa using List.find?_some found
    have same : e' = e :=
      List.inj_on_of_nodup_map sources (List.mem_of_find?_eq_some found) he source
    rw [nextOf?, found, same]
    rfl

/-- A walk along arcs that lead to different targets steps onto the next position of `follow`. -/
theorem nextOf?_of_follow {arcs : List Edge} {fuel i k a b : Nat}
    (ha : (follow arcs fuel i)[k]? = some a) (hb : (follow arcs fuel i)[k + 1]? = some b) :
    nextOf? arcs a = some b := by
  induction fuel generalizing i k with
  | zero => simp [follow] at ha
  | succ fuel ih =>
    simp only [follow] at ha hb
    cases next : nextOf? arcs i with
    | none => simp [next] at hb
    | some j =>
      rw [next] at ha hb
      cases k with
      | zero =>
        obtain rfl : i = a := by simpa using ha
        obtain rfl : j = b := by
          cases fuel with
          | zero => simp [follow] at hb
          | succ fuel => simpa [follow] using hb
        exact next
      | succ k => exact ih ha hb

theorem head?_follow {arcs : List Edge} (fuel i : Nat) :
    (follow arcs (fuel + 1) i)[0]? = some i := rfl

/-- Following arcs with different targets from a node that none of them enters never returns to a
node: going back from two equal nodes step by step would end at the start. -/
theorem follow_getElem?_inj {arcs : List Edge} (targets : (arcs.map (·.target)).Nodup)
    {head : Nat} (start : head ∉ arcs.map (·.target)) {fuel : Nat} {a b x : Nat} (hab : a ≤ b)
    (ha : (follow arcs fuel head)[a]? = some x) (hb : (follow arcs fuel head)[b]? = some x) :
    a = b := by
  have arc : ∀ {k y z}, (follow arcs fuel head)[k]? = some y →
      (follow arcs fuel head)[k + 1]? = some z → ∃ e ∈ arcs, e.source = y ∧ e.target = z :=
    fun hy hz => mem_of_nextOf?_eq_some (nextOf?_of_follow hy hz)
  have before : ∀ {k z}, (follow arcs fuel head)[k + 1]? = some z →
      ∃ y, (follow arcs fuel head)[k]? = some y := by
    intro k z hz
    have bound := (List.getElem?_eq_some_iff.mp hz).1
    exact ⟨_, List.getElem?_eq_getElem (by omega)⟩
  induction a generalizing b x with
  | zero =>
    cases b with
    | zero => rfl
    | succ b =>
      have first : head = x := by
        cases fuel with
        | zero => simp [follow] at ha
        | succ fuel => simpa [head?_follow] using ha
      obtain ⟨y, hy⟩ := before hb
      obtain ⟨e, he, _, rfl⟩ := arc hy hb
      exact absurd (List.mem_map_of_mem he) (first ▸ start)
  | succ a ih =>
    cases b with
    | zero => omega
    | succ b =>
      obtain ⟨y, hy⟩ := before ha
      obtain ⟨z, hz⟩ := before hb
      obtain ⟨d, hd, ds, dt⟩ := arc hy ha
      obtain ⟨e, he, es, et⟩ := arc hz hb
      have same : d = e := List.inj_on_of_nodup_map targets hd he (dt.trans et.symm)
      have step := ih (Nat.le_of_succ_le_succ hab) hy (by rw [hz, ← es, ← ds, same])
      omega

theorem nodup_follow {arcs : List Edge} (targets : (arcs.map (·.target)).Nodup) {head : Nat}
    (start : head ∉ arcs.map (·.target)) (fuel : Nat) : (follow arcs fuel head).Nodup := by
  rw [List.nodup_iff_getElem?_ne_getElem?]
  intro a b hab hb same
  have hx := List.getElem?_eq_getElem hb
  have := follow_getElem?_inj targets start (Nat.le_of_lt hab) (same.trans hx) hx
  omega

theorem chainArcs_follow_subset {arcs : List Edge} (roles : ∀ e ∈ arcs, e.role = .ncs)
    (fuel head : Nat) : chainArcs (follow arcs fuel head) ⊆ arcs := by
  intro e he
  obtain ⟨k, hs, ht, role⟩ := mem_chainArcs.mp he
  obtain ⟨e', he', source, target⟩ := mem_of_nextOf?_eq_some (nextOf?_of_follow hs ht)
  obtain rfl : e' = e := by
    have role' := roles e' he'
    cases e
    cases e'
    simp_all
  exact he'

theorem follow_lt {arcs : List Edge} {count : Nat} (bounded : ∀ e ∈ arcs, e.target < count)
    {fuel head : Nat} (hh : head < count) {x : Nat} (hx : x ∈ follow arcs fuel head) :
    x < count := by
  induction fuel generalizing head with
  | zero => simp [follow] at hx
  | succ fuel ih =>
    simp only [follow, List.mem_cons] at hx
    rcases hx with rfl | hx
    · exact hh
    · cases next : nextOf? arcs head with
      | none => simp [next] at hx
      | some j =>
        obtain ⟨e, he, _, rfl⟩ := mem_of_nextOf?_eq_some next
        exact ih (bounded e he) (by simpa [next] using hx)

/-- On the arcs of a path without repetitions, each node leads to the next one of the path. -/
theorem nextOf?_of_chain {arcs : List Edge} {path : List Nat} (nodup : path.Nodup)
    (same : arcs.Perm (chainArcs path)) {k i : Nat} (hi : path[k]? = some i) :
    nextOf? arcs i = path[k + 1]? := by
  cases hj : path[k + 1]? with
  | some j =>
    have sources : (arcs.map (·.source)).Nodup := by
      rw [(same.map _).nodup_iff, map_source_chainArcs]
      exact nodup.sublist (List.dropLast_sublist path)
    have arc : (⟨i, j, .ncs⟩ : Edge) ∈ chainArcs path := mem_chainArcs.mpr ⟨k, hi, hj, rfl⟩
    exact nextOf?_eq_some sources (same.mem_iff.mpr arc)
  | none =>
    cases found : nextOf? arcs i with
    | none => rfl
    | some j =>
      obtain ⟨e, he, rfl, rfl⟩ := mem_of_nextOf?_eq_some found
      obtain ⟨l, hs, ht, _⟩ := mem_chainArcs.mp (same.mem_iff.mp he)
      have position : k = l :=
        (List.getElem?_inj (List.getElem?_eq_some_iff.mp hi).1 nodup).mp (hi.trans hs.symm)
      rw [← position, hj] at ht
      cases ht

theorem follow_of_chain {arcs : List Edge} {path : List Nat} (nodup : path.Nodup)
    (same : arcs.Perm (chainArcs path)) {fuel k i : Nat} (hi : path[k]? = some i)
    (enough : path.length ≤ fuel + k) : follow arcs fuel i = path.drop k := by
  induction fuel generalizing k i with
  | zero =>
    have bound := (List.getElem?_eq_some_iff.mp hi).1
    omega
  | succ fuel ih =>
    obtain ⟨bound, rfl⟩ := List.getElem?_eq_some_iff.mp hi
    rw [List.drop_eq_getElem_cons bound, follow, nextOf?_of_chain nodup same hi]
    cases hj : path[k + 1]? with
    | none => rw [List.drop_eq_nil_of_le (List.getElem?_eq_none_iff.mp hj)]
    | some j => rw [← ih hj (by omega)]

/-- The only position of a path that its arcs do not enter is the first. -/
theorem heads_of_chain {arcs : List Edge} {count head : Nat} {rest : List Nat}
    (all : (head :: rest).Perm (List.range count))
    (same : arcs.Perm (chainArcs (head :: rest))) :
    (List.range count).filter (!(arcs.map (·.target)).contains ·) = [head] := by
  have nodup : (head :: rest).Nodup := all.nodup_iff.mpr List.nodup_range
  have entered : ∀ i, (arcs.map (·.target)).contains i = rest.contains i := by
    intro i
    rw [Bool.eq_iff_iff, List.contains_iff_mem, List.contains_iff_mem,
      (same.map Edge.target).mem_iff, map_target_chainArcs, List.tail_cons]
  have others : rest.filter (!rest.contains ·) = [] := by
    rw [List.filter_eq_nil_iff]
    intro i hi
    simp [hi]
  have first : (!rest.contains head) = true := by
    simpa using (List.nodup_cons.mp nodup).1
  simp only [entered]
  rw [← List.perm_singleton]
  have filtered := all.filter (!rest.contains ·)
  rw [List.filter_cons, if_pos first, others] at filtered
  exact filtered.symm

/-- The search succeeds on `ncs` arcs with different sources and different targets, if only one
position is entered by none of them and the walk from there passes all positions. -/
theorem pathOrder?_eq_some_iff_follow {arcs : List Edge} {count : Nat} {path : List Nat} :
    pathOrder? arcs count = some path ↔
      (∀ e ∈ arcs, e.role = .ncs) ∧ (arcs.map (·.source)).Nodup ∧ (arcs.map (·.target)).Nodup ∧
        ∃ head, (List.range count).filter (!(arcs.map (·.target)).contains ·) = [head] ∧
          follow arcs (count + 1) head = path ∧ path.length = count := by
  unfold pathOrder?
  constructor
  · intro h
    split at h
    case isFalse => cases h
    case isTrue plain =>
      obtain ⟨⟨roles, sources⟩, targets⟩ := by
        simpa only [Bool.and_eq_true, List.all_eq_true, beq_iff_eq, decide_eq_true_eq] using plain
      split at h
      case h_2 => cases h
      case h_1 head heads =>
        simp only at h
        split at h
        case isFalse => cases h
        case isTrue full =>
          obtain rfl := Option.some.inj h
          exact ⟨roles, sources, targets, head, heads, rfl, full⟩
  · rintro ⟨roles, sources, targets, head, heads, rfl, full⟩
    have role : arcs.all (·.role == .ncs) = true := by
      simpa only [List.all_eq_true, beq_iff_eq] using roles
    simp only [role, sources, targets, decide_true, Bool.and_self, if_true, heads, full]

/-- A walk that starts where no arc ends and passes all positions uses all arcs: there are no more
arcs than positions other than the first. -/
theorem perm_of_follow {arcs : List Edge} {count head : Nat}
    (bounded : ∀ e ∈ arcs, e.target < count) (roles : ∀ e ∈ arcs, e.role = .ncs)
    (targets : (arcs.map (·.target)).Nodup) (inside : head < count)
    (start : head ∉ arcs.map (·.target)) (full : (follow arcs (count + 1) head).length = count) :
    (follow arcs (count + 1) head).Perm (List.range count) ∧
      arcs.Perm (chainArcs (follow arcs (count + 1) head)) := by
  have nodup := nodup_follow targets start (count + 1)
  have within : follow arcs (count + 1) head ⊆ List.range count :=
    fun x hx => List.mem_range.mpr (follow_lt bounded inside hx)
  have entered : head :: arcs.map (·.target) ⊆ List.range count := by
    intro x hx
    rcases List.mem_cons.mp hx with rfl | hx
    · exact List.mem_range.mpr inside
    · obtain ⟨e, he, rfl⟩ := List.mem_map.mp hx
      exact List.mem_range.mpr (bounded e he)
  have few : arcs.length + 1 ≤ count := by
    simpa using (List.subperm_of_subset (List.nodup_cons.mpr ⟨start, targets⟩) entered).length_le
  have used := List.subperm_of_subset (nodup_chainArcs nodup)
    (chainArcs_follow_subset roles (count + 1) head)
  refine ⟨(List.subperm_of_subset nodup within).perm_of_length_le (by simp [full]), ?_⟩
  refine (used.perm_of_length_le ?_).symm
  rw [length_chainArcs, full]
  omega

/-- What the search for an order of siblings finds: the arcs must be those from each position to
the next one of a list of all positions, and that list is the order. -/
theorem pathOrder?_eq_some_iff {arcs : List Edge} {count : Nat} {path : List Nat}
    (bounded : ∀ e ∈ arcs, e.target < count) (pos : 0 < count) :
    pathOrder? arcs count = some path ↔
      path.Perm (List.range count) ∧ arcs.Perm (chainArcs path) := by
  rw [pathOrder?_eq_some_iff_follow]
  constructor
  · rintro ⟨roles, _, targets, head, heads, rfl, full⟩
    have member : head ∈ [head] := List.mem_singleton_self head
    rw [← heads, List.mem_filter] at member
    have start : head ∉ arcs.map (·.target) := by simpa using member.2
    exact perm_of_follow bounded roles targets (List.mem_range.mp member.1) start full
  · rintro ⟨all, same⟩
    have nodup : path.Nodup := all.nodup_iff.mpr List.nodup_range
    have full : path.length = count := by simpa using all.length_eq
    cases path with
    | nil => exact absurd full.symm (Nat.ne_of_gt pos)
    | cons head rest =>
      refine ⟨?_, ?_, ?_, head, heads_of_chain all same, ?_, full⟩
      · exact fun e he => role_of_mem_chainArcs (same.mem_iff.mp he)
      · rw [(same.map _).nodup_iff, map_source_chainArcs]
        exact nodup.sublist (List.dropLast_sublist _)
      · rw [(same.map _).nodup_iff, map_target_chainArcs]
        exact nodup.tail
      · have first : (head :: rest)[0]? = some head := rfl
        exact follow_of_chain nodup same first (by omega)

end FolGraph.Graph
