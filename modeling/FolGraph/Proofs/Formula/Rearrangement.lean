import FolGraph.Proofs.Formula.Position
import FolGraph.Proofs.Formula.Reordering
import Mathlib.Data.Set.Function

/-!
# Rearrangements of positions

Formulas that are equal up to the order of operands have the same nodes in other places.
`Rearranges` says of a map from positions to positions that it is one-to-one, keeps labels and
takes the arguments of a node to the arguments of its image, in their order unless the node is an
unordered operator. `Reordered.exists_rearranges` finds such a map; `Rearranges.exists_inverse`
turns it round, so that what one direction carries over the other one carries back.
-/

namespace FolGraph.Formula

/-- A map of positions under which one formula becomes the other. -/
structure Rearranges (f g : Formula) (π : List Nat → List Nat) : Prop where
  root : π [] = []
  node : ∀ p s, f.sub? p = some s →
    ∃ t, g.sub? (π p) = some t ∧ t.label = s.label ∧ t.args.length = s.args.length
  arg : ∀ p s i, f.sub? p = some s → i < s.args.length →
    ∃ j, π (p ++ [i]) = π p ++ [j] ∧ (isUnordered s.label = false → j = i)
  injective : ∀ p q s t, f.sub? p = some s → f.sub? q = some t → π p = π q → p = q
  surjective : ∀ r t, g.sub? r = some t → ∃ p s, f.sub? p = some s ∧ π p = r

/-! ## From reordered formulas -/

/-- A permutation of a list moves the element at each place to some place. -/
theorem exists_bijOn_of_perm {fs gs : List Formula} (h : fs.Perm gs) :
    ∃ σ : Nat → Nat, Set.BijOn σ {i | i < fs.length} {i | i < gs.length} ∧
      ∀ i < fs.length, gs[σ i]? = fs[i]? := by
  refine ⟨fun i => if hi : i < fs.length then h.idxBij ⟨i, hi⟩ else i, ⟨?_, ?_, ?_⟩, ?_⟩
  · intro i hi
    have hi : i < fs.length := hi
    simp only [hi, dif_pos, Set.mem_ofPred_eq]
    exact (h.idxBij ⟨i, hi⟩).isLt
  · intro i hi j hj same
    have hi : i < fs.length := hi
    have hj : j < fs.length := hj
    simp only [hi, hj, dif_pos] at same
    exact congrArg Fin.val (h.idxBij_injective (Fin.ext same))
  · intro j hj
    obtain ⟨⟨i, hi⟩, same⟩ := h.idxBij_surjective ⟨j, hj⟩
    refine ⟨i, hi, ?_⟩
    simp only [hi, dif_pos, same]
  · intro i hi
    simp only [hi, dif_pos]
    rw [List.getElem?_eq_getElem (h.idxBij ⟨i, hi⟩).isLt, List.getElem?_eq_getElem hi]
    exact congrArg some (h.getElem_idxBij_eq_getElem ⟨i, hi⟩)

/-- Moves the arguments of a node by one map and what is below each of them by another. -/
def route (σ : Nat → Nat) (below : Nat → List Nat → List Nat) : List Nat → List Nat
  | [] => []
  | i :: p => σ i :: below i p

/-- Maps of the positions in the arguments make a map of the positions of the node. -/
theorem rearranges_route {label : String} {as bs : List Formula} {σ : Nat → Nat}
    {below : Nat → List Nat → List Nat} (length : bs.length = as.length)
    (bijOn : Set.BijOn σ {i | i < as.length} {i | i < bs.length})
    (each : ∀ (i : Nat) (a : Formula), as[i]? = some a →
      ∃ b, bs[σ i]? = some b ∧ a.Rearranges b (below i))
    (kept : isUnordered label = false → ∀ i < as.length, σ i = i) :
    (node label as).Rearranges (node label bs) (route σ below) where
  root := rfl
  node p s hs := by
    cases p with
    | nil =>
      obtain rfl := Option.some.inj ((sub?_nil _).symm.trans hs)
      exact ⟨_, sub?_nil _, rfl, length⟩
    | cons i p =>
      obtain ⟨a, ha, hs⟩ := sub?_cons_eq_some.mp hs
      obtain ⟨b, hb, rearranges⟩ := each i a ha
      obtain ⟨t, ht, same⟩ := rearranges.node p s hs
      exact ⟨t, sub?_cons_eq_some.mpr ⟨b, hb, ht⟩, same⟩
  arg p s i hs hi := by
    cases p with
    | nil =>
      obtain rfl := Option.some.inj ((sub?_nil _).symm.trans hs)
      obtain ⟨_, _, rearranges⟩ := each i _ (List.getElem?_eq_getElem hi)
      refine ⟨σ i, ?_, fun kind => kept kind i hi⟩
      change σ i :: below i [] = [σ i]
      rw [rearranges.root]
    | cons k p =>
      obtain ⟨a, ha, hs⟩ := sub?_cons_eq_some.mp hs
      obtain ⟨_, _, rearranges⟩ := each k a ha
      obtain ⟨j, moved, ordered⟩ := rearranges.arg p s i hs hi
      exact ⟨j, by rw [List.cons_append, route, moved, route, List.cons_append], ordered⟩
  injective p q s t hs ht same := by
    cases p with
    | nil =>
      cases q with
      | nil => rfl
      | cons k q => cases same
    | cons i p =>
      cases q with
      | nil => cases same
      | cons k q =>
        obtain ⟨a, ha, hs⟩ := sub?_cons_eq_some.mp hs
        obtain ⟨c, hc, ht⟩ := sub?_cons_eq_some.mp ht
        obtain ⟨first, rest⟩ := List.cons.inj same
        obtain rfl := bijOn.injOn (List.getElem?_eq_some_iff.mp ha).1
          (List.getElem?_eq_some_iff.mp hc).1 first
        obtain ⟨_, _, rearranges⟩ := each i a ha
        obtain rfl := Option.some.inj (ha.symm.trans hc)
        rw [rearranges.injective p q s t hs ht rest]
  surjective r t ht := by
    cases r with
    | nil => exact ⟨[], _, sub?_nil _, rfl⟩
    | cons j r =>
      obtain ⟨b, hb, below⟩ := sub?_cons_eq_some.mp ht
      obtain ⟨i, hi, rfl⟩ := bijOn.surjOn (List.getElem?_eq_some_iff.mp hb).1
      have ha := List.getElem?_eq_getElem (show i < as.length from hi)
      obtain ⟨b', hb', rearranges⟩ := each i _ ha
      obtain rfl := Option.some.inj (hb.symm.trans hb')
      obtain ⟨p, s, hs, rfl⟩ := rearranges.surjective r t below
      exact ⟨i :: p, s, sub?_cons_eq_some.mpr ⟨_, ha, hs⟩, rfl⟩

mutual

/-- The nodes of reordered formulas are the same nodes in other places. -/
theorem Reordered.exists_rearranges : {f g : Formula} → Reordered f g → ∃ π, f.Rearranges g π
  | .node label as, _, h => by
    cases h with
    | @node _ _ bs cs each perm kept =>
      have choice : ∀ i : Nat, ∃ π, ∀ a : Formula, as[i]? = some a →
          ∃ c : Formula, cs[i]? = some c ∧ a.Rearranges c π := by
        intro i
        cases ha : as[i]? with
        | none => exact ⟨id, by simp⟩
        | some a =>
          obtain ⟨c, π, hc, rearranges⟩ := exists_rearranges_of_forall₂ each ha
          exact ⟨π, fun a' ha' => ⟨c, hc, Option.some.inj ha' ▸ rearranges⟩⟩
      choose below hbelow using choice
      have length : bs.length = as.length := (each.length_eq.trans perm.length_eq).symm
      have moved : ∃ σ : Nat → Nat, Set.BijOn σ {i | i < as.length} {i | i < bs.length} ∧
          (∀ i < as.length, bs[σ i]? = cs[i]?) ∧
          (isUnordered label = false → ∀ i < as.length, σ i = i) := by
        cases kind : isUnordered label with
        | false =>
          obtain rfl := kept kind
          exact ⟨id, by rw [length]; exact Set.bijOn_id _, fun _ _ => rfl, fun _ _ _ => rfl⟩
        | true =>
          obtain ⟨σ, bijOn, same⟩ := exists_bijOn_of_perm perm
          rw [← each.length_eq] at bijOn same
          exact ⟨σ, bijOn, same, by simp⟩
      obtain ⟨σ, bijOn, same, ordered⟩ := moved
      refine ⟨route σ below, rearranges_route length bijOn (fun i a ha => ?_) ordered⟩
      obtain ⟨c, hc, rearranges⟩ := hbelow i a ha
      exact ⟨c, (same i (List.getElem?_eq_some_iff.mp ha).1).trans hc, rearranges⟩

theorem exists_rearranges_of_forall₂ : {fs gs : List Formula} → List.Forall₂ Reordered fs gs →
    {i : Nat} → {f : Formula} → fs[i]? = some f → ∃ g π, gs[i]? = some g ∧ f.Rearranges g π
  | [], _, _, _, _, hf => by
    cases hf
  | f :: fs, _, h, i, f', hf => by
    cases h with
    | @cons _ g _ gs first rest =>
      cases i with
      | zero =>
        obtain ⟨π, rearranges⟩ := first.exists_rearranges
        exact ⟨g, π, rfl, Option.some.inj hf ▸ rearranges⟩
      | succ i => exact exists_rearranges_of_forall₂ rest hf

end

/-! ## Turning a rearrangement round -/

section
variable {f g : Formula} {π : List Nat → List Nat}

/-- Only the arguments of a node are taken to the arguments of its image. -/
theorem Rearranges.exists_snoc (h : f.Rearranges g π) {p v : List Nat} {s t : Formula} {j : Nat}
    (hs : f.sub? p = some s) (ht : f.sub? v = some t) (same : π v = π p ++ [j]) :
    ∃ i, v = p ++ [i] ∧ i < s.args.length ∧ (isUnordered s.label = false → j = i) := by
  rcases v.eq_nil_or_concat' with rfl | ⟨q, i, rfl⟩
  · rw [h.root] at same
    simp at same
  · obtain ⟨s', hs', ha⟩ := sub?_snoc_eq_some.mp ht
    have hi := (List.getElem?_eq_some_iff.mp ha).1
    obtain ⟨j', moved, ordered⟩ := h.arg q s' i hs' hi
    obtain ⟨parent, rfl⟩ := List.append_singleton_inj.mp (moved.symm.trans same)
    obtain rfl := h.injective q p s' s hs' hs parent
    obtain rfl := Option.some.inj (hs.symm.trans hs')
    exact ⟨i, rfl, hi, ordered⟩

theorem Rearranges.exists_inverse (h : f.Rearranges g π) :
    ∃ ρ, g.Rearranges f ρ ∧ (∀ p s, f.sub? p = some s → ρ (π p) = p) ∧
      ∀ r t, g.sub? r = some t → π (ρ r) = r := by
  have choice : ∀ r, ∃ p, ∀ t, g.sub? r = some t → (∃ s, f.sub? p = some s) ∧ π p = r := by
    intro r
    cases found : g.sub? r with
    | none => exact ⟨[], by simp⟩
    | some t =>
      obtain ⟨p, s, hs, same⟩ := h.surjective r t found
      exact ⟨p, fun _ _ => ⟨⟨s, hs⟩, same⟩⟩
  choose ρ hρ using choice
  have back : ∀ p s, f.sub? p = some s → ρ (π p) = p := by
    intro p s hs
    obtain ⟨t, ht, _⟩ := h.node p s hs
    obtain ⟨⟨s', hs'⟩, same⟩ := hρ (π p) t ht
    exact h.injective _ _ s' s hs' hs same
  have node : ∀ r t, g.sub? r = some t →
      ∃ s, f.sub? (ρ r) = some s ∧ s.label = t.label ∧ s.args.length = t.args.length := by
    intro r t ht
    obtain ⟨⟨s, hs⟩, same⟩ := hρ r t ht
    obtain ⟨t', ht', label, length⟩ := h.node (ρ r) s hs
    rw [same, ht] at ht'
    obtain rfl := Option.some.inj ht'
    exact ⟨s, hs, label.symm, length.symm⟩
  refine ⟨ρ, ⟨?_, node, ?_, ?_, ?_⟩, back, fun r t ht => (hρ r t ht).2⟩
  · rw [← h.root, back [] f (sub?_nil f), h.root]
  · intro r t j ht hj
    obtain ⟨s, hs, label, length⟩ := node r t ht
    obtain ⟨⟨a, ha⟩, same⟩ := hρ (r ++ [j]) _
      ((sub?_snoc ht j).trans (List.getElem?_eq_getElem hj))
    have below : π (ρ (r ++ [j])) = π (ρ r) ++ [j] := by rw [same, (hρ r t ht).2]
    obtain ⟨i, moved, _, ordered⟩ := h.exists_snoc hs ha below
    exact ⟨i, moved, fun kind => (ordered (label ▸ kind)).symm⟩
  · intro r r' t t' ht ht' same
    rw [← (hρ r t ht).2, same, (hρ r' t' ht').2]
  · intro p s hs
    obtain ⟨t, ht, _⟩ := h.node p s hs
    exact ⟨π p, t, ht, back p s hs⟩

end

end FolGraph.Formula
