import FolGraph.Formula.Equivalence
import Mathlib.Data.List.Perm.Basic

/-!
# Equality up to the order of operands

`Reordered` says that two formulas differ in the order of operands only: operand by operand they
are reordered, after the operands of an unordered operator have been put in some order.
`isEquivalent_iff` says that the comparison of formulas decides this. It matches operands greedily
and never takes a match back; that this loses nothing is due to `Reordered` being an equivalence
(`exists_matching_of_cons`).
-/

namespace FolGraph.Formula

/-- Two formulas are equal up to the order of the operands of unordered operators. -/
inductive Reordered : Formula → Formula → Prop where
  | node {label : String} {as bs cs : List Formula} (each : List.Forall₂ Reordered as cs)
      (perm : cs.Perm bs) (kept : isUnordered label = false → cs = bs) :
      Reordered (.node label as) (.node label bs)

/-! ## An equivalence -/

mutual

theorem Reordered.refl : (f : Formula) → Reordered f f
  | .node _ args => .node (forall₂_reordered_refl args) (List.Perm.refl args) fun _ => rfl

theorem forall₂_reordered_refl : (fs : List Formula) → List.Forall₂ Reordered fs fs
  | [] => .nil
  | f :: fs => .cons (Reordered.refl f) (forall₂_reordered_refl fs)

end

mutual

theorem Reordered.symm : {f g : Formula} → Reordered f g → Reordered g f
  | .node label as, _, h => by
    cases h with
    | @node _ _ bs cs each perm kept =>
      have back := forall₂_reordered_symm each
      cases kind : isUnordered label with
      | false =>
        obtain rfl := kept kind
        exact .node back (List.Perm.refl as) fun _ => rfl
      | true =>
        obtain ⟨ds, each, perm⟩ := List.perm_comp_forall₂ perm.symm back
        exact .node each perm (by simp [kind])

theorem forall₂_reordered_symm : {fs gs : List Formula} →
    List.Forall₂ Reordered fs gs → List.Forall₂ Reordered gs fs
  | [], _, h => by
    cases h
    exact .nil
  | _ :: _, _, h => by
    cases h with
    | cons first rest => exact .cons first.symm (forall₂_reordered_symm rest)

end

mutual

theorem Reordered.trans : {f g h : Formula} → Reordered f g → Reordered g h → Reordered f h
  | .node label as, _, _, fg, gh => by
    cases fg with
    | @node _ _ bs xs each perm kept =>
      cases gh with
      | @node _ _ cs ys each' perm' kept' =>
        cases kind : isUnordered label with
        | false =>
          obtain rfl := kept kind
          exact .node (forall₂_reordered_trans each each') perm' kept'
        | true =>
          obtain ⟨zs, between, perm⟩ := List.perm_comp_forall₂ perm each'
          exact .node (forall₂_reordered_trans each between) (perm.trans perm') (by simp [kind])

theorem forall₂_reordered_trans : {fs gs hs : List Formula} → List.Forall₂ Reordered fs gs →
    List.Forall₂ Reordered gs hs → List.Forall₂ Reordered fs hs
  | [], _, _, fg, gh => by
    cases fg
    exact gh
  | _ :: _, _, _, fg, gh => by
    cases fg with
    | cons first rest =>
      cases gh with
      | cons first' rest' =>
        exact .cons (first.trans first') (forall₂_reordered_trans rest rest')

end

/-! ## Greedy matching -/

/-- The last element may stand first. -/
theorem getLast?_toList_append_dropLast_perm {α : Type} (as : List α) :
    (as.getLast?.toList ++ as.dropLast).Perm as := by
  cases last : as.getLast? with
  | none =>
    obtain rfl := List.getLast?_eq_none_iff.mp last
    exact List.Perm.refl _
  | some a =>
    have same := List.dropLast_append_getLast? a last
    exact List.perm_append_comm.trans (.of_eq same)

theorem perm_of_removeFirst {α : Type} {test : α → Bool} {as rest : List α}
    (h : removeFirst test as = some rest) : ∃ a, test a = true ∧ as.Perm (a :: rest) := by
  induction as generalizing rest with
  | nil => cases h
  | cons a as ih =>
    rw [removeFirst] at h
    split at h
    case isTrue passed =>
      obtain rfl := Option.some.inj h
      exact ⟨a, passed, (getLast?_toList_append_dropLast_perm as).symm.cons a⟩
    case isFalse =>
      obtain ⟨rest, removed, rfl⟩ := Option.map_eq_some_iff.mp h
      obtain ⟨b, passed, perm⟩ := ih removed
      exact ⟨b, passed, (perm.cons a).trans (List.Perm.swap b a rest)⟩

theorem exists_removeFirst {α : Type} {test : α → Bool} {as : List α} {a : α} (ha : a ∈ as)
    (passed : test a = true) : ∃ rest, removeFirst test as = some rest := by
  induction as with
  | nil => cases ha
  | cons b as ih =>
    rw [removeFirst]
    split
    case isTrue => exact ⟨_, rfl⟩
    case isFalse failed =>
      rcases List.mem_cons.mp ha with rfl | ha
      · exact absurd passed failed
      · obtain ⟨rest, removed⟩ := ih ha
        exact ⟨b :: rest, by rw [removed, Option.map_some]⟩

/-- Formulas that can be matched can still be matched after the first of them has taken any
formula that it could take: the formula that it leaves free is as good as the one it took. -/
theorem exists_matching_of_cons {f g x : Formula} {fs gs rest : List Formula}
    (each : List.Forall₂ Reordered fs gs) (hg : Reordered f g) (hx : Reordered f x)
    (perm : (g :: gs).Perm (x :: rest)) :
    ∃ hs, List.Forall₂ Reordered fs hs ∧ hs.Perm rest := by
  by_cases same : x = g
  · subst same
    exact ⟨gs, each, perm.cons_inv⟩
  · have taken : x ∈ gs := by
      have member : x ∈ g :: gs := perm.mem_iff.mpr List.mem_cons_self
      exact (List.mem_cons.mp member).resolve_left same
    have split := List.perm_cons_erase taken
    have replaced : List.Forall₂ Reordered (x :: gs.erase x) (g :: gs.erase x) :=
      .cons (hx.symm.trans hg) (forall₂_reordered_refl _)
    obtain ⟨hs, between, perm'⟩ := List.perm_comp_forall₂ split replaced
    refine ⟨hs, forall₂_reordered_trans each between, perm'.trans ?_⟩
    have moved := ((split.cons g).symm.trans perm)
    exact ((List.Perm.swap g x (gs.erase x)).trans moved).cons_inv

mutual

/-- The comparison decides equality up to the order of operands. -/
theorem isEquivalent_iff : (f g : Formula) → (f.isEquivalent g = true ↔ Reordered f g)
  | .node label as, .node other bs => by
    rw [isEquivalent]
    simp only [Bool.and_eq_true, beq_iff_eq]
    cases kind : isUnordered label with
    | true =>
      simp only [if_true]
      constructor
      · rintro ⟨⟨rfl, length⟩, matched⟩
        obtain ⟨cs, each, perm⟩ := (matchAnyOrder_iff as bs length).mp matched
        exact .node each perm (by simp [kind])
      · intro h
        cases h with
        | node each perm _ =>
          have length := each.length_eq.trans perm.length_eq
          exact ⟨⟨rfl, length⟩, (matchAnyOrder_iff as bs length).mpr ⟨_, each, perm⟩⟩
    | false =>
      simp only [Bool.false_eq_true, if_false]
      constructor
      · rintro ⟨⟨rfl, length⟩, matched⟩
        exact .node ((matchInOrder_iff as bs length).mp matched) (List.Perm.refl bs) fun _ => rfl
      · intro h
        cases h with
        | node each _ kept =>
          obtain rfl := kept kind
          exact ⟨⟨rfl, each.length_eq⟩, (matchInOrder_iff as _ each.length_eq).mpr each⟩

theorem matchAnyOrder_iff : (fs gs : List Formula) → fs.length = gs.length →
    (matchAnyOrder fs gs = true ↔ ∃ hs, List.Forall₂ Reordered fs hs ∧ hs.Perm gs)
  | [], gs, length => by
    obtain rfl := List.length_eq_zero_iff.mp length.symm
    simp [matchAnyOrder]
  | f :: fs, gs, length => by
    have rest_length : ∀ {x rest}, gs.Perm (x :: rest) → fs.length = rest.length := by
      intro x rest perm
      simpa [perm.length_eq] using length
    rw [matchAnyOrder]
    constructor
    · intro h
      split at h
      case h_2 => cases h
      case h_1 rest removed =>
        obtain ⟨x, passed, perm⟩ := perm_of_removeFirst removed
        obtain ⟨hs, each, perm'⟩ := (matchAnyOrder_iff fs rest (rest_length perm)).mp h
        exact ⟨x :: hs, .cons ((isEquivalent_iff f x).mp passed) each,
          (perm'.cons x).trans perm.symm⟩
    · rintro ⟨_, each, perm⟩
      cases each with
      | @cons _ g _ hs first others =>
        have member : g ∈ gs := perm.mem_iff.mp List.mem_cons_self
        obtain ⟨rest, removed⟩ := exists_removeFirst member ((isEquivalent_iff f g).mpr first)
        obtain ⟨x, passed, perm'⟩ := perm_of_removeFirst removed
        rw [removed]
        refine (matchAnyOrder_iff fs rest (rest_length perm')).mpr ?_
        exact exists_matching_of_cons others first ((isEquivalent_iff f x).mp passed)
          (perm.trans perm')

theorem matchInOrder_iff : (fs gs : List Formula) → fs.length = gs.length →
    (matchInOrder fs gs = true ↔ List.Forall₂ Reordered fs gs)
  | [], gs, length => by
    obtain rfl := List.length_eq_zero_iff.mp length.symm
    simp [matchInOrder]
  | f :: fs, [], length => by
    cases length
  | f :: fs, g :: gs, length => by
    rw [matchInOrder, Bool.and_eq_true, isEquivalent_iff f g,
      matchInOrder_iff fs gs (Nat.succ.inj length), List.forall₂_cons]

end

end FolGraph.Formula
