import FolGraph.Proofs.Formula.Reordering
import Mathlib.Logic.Relation

/-!
# Swaps of operands

A swap exchanges two arguments of one node that is a connective or an equality symbol, anywhere in
a formula. `isEquivalent_iff_swaps` says that the comparison of formulas holds exactly between
those that a chain of swaps connects; so it is an equivalence, although it matches greedily and
does not keep the order of what is still to be matched.
-/

namespace FolGraph.Formula

/-- One formula becomes the other when two arguments of one node change places. -/
inductive Swap : Formula → Formula → Prop where
  | here {label : String} (operator : label ∈ ["|", "&", "~", "=", "!="])
      (front mid back : List Formula) (f g : Formula) :
      Swap (.node label (front ++ f :: mid ++ g :: back))
        (.node label (front ++ g :: mid ++ f :: back))
  | inside (label : String) (front back : List Formula) {f g : Formula} (swap : Swap f g) :
      Swap (.node label (front ++ f :: back)) (.node label (front ++ g :: back))

/-- Finitely many swaps, one after the other. -/
abbrev Swaps : Formula → Formula → Prop := Relation.ReflTransGen Swap

theorem isUnordered_iff {label : String} :
    isUnordered label = true ↔ label ∈ ["|", "&", "~", "=", "!="] := by
  simp [isUnordered, or_assoc]

/-- Exchanging the two elements at the ends of a stretch keeps the elements of a list. -/
theorem perm_swap {α : Type} (front mid back : List α) (a b : α) :
    (front ++ a :: mid ++ b :: back).Perm (front ++ b :: mid ++ a :: back) := by
  have ends : (a :: mid ++ b :: back).Perm (b :: mid ++ a :: back) :=
    calc (a :: mid ++ b :: back).Perm (a :: b :: (mid ++ back)) :=
          List.perm_middle.cons a
      List.Perm _ (b :: a :: (mid ++ back)) := List.Perm.swap b a _
      List.Perm _ (b :: mid ++ a :: back) := List.perm_middle.symm.cons b
  simpa only [List.append_assoc] using ends.append_left front

theorem Swap.reordered {f g : Formula} (swap : Swap f g) : Reordered f g := by
  induction swap with
  | here operator front mid back f g =>
    refine .node (forall₂_reordered_refl _) (perm_swap front mid back f g) fun ordered => ?_
    rw [isUnordered_iff.mpr operator] at ordered
    cases ordered
  | inside label front back _ ih =>
    have each := List.rel_append (forall₂_reordered_refl front)
      (List.Forall₂.cons ih (forall₂_reordered_refl back))
    exact .node each (List.Perm.refl _) fun _ => rfl

theorem Swaps.reordered {f g : Formula} (swaps : Swaps f g) : Reordered f g := by
  induction swaps with
  | refl => exact Reordered.refl f
  | tail _ swap ih => exact ih.trans swap.reordered

/-- The arguments of an operator get into any order by swaps of neighbours. -/
theorem swaps_of_perm {label : String} (operator : label ∈ ["|", "&", "~", "=", "!="])
    {as bs : List Formula} (perm : as.Perm bs) (front : List Formula) :
    Swaps (.node label (front ++ as)) (.node label (front ++ bs)) := by
  induction perm generalizing front with
  | nil => exact .refl
  | cons f _ ih => simpa only [List.append_assoc, List.singleton_append] using ih (front ++ [f])
  | swap f g back => exact .single (by simpa using Swap.here operator front [] back g f)
  | trans _ _ ih ih' => exact (ih front).trans (ih' front)

/-- Swaps below the arguments of a node are made one argument after the other. -/
theorem swaps_of_forall₂ {label : String} {as bs : List Formula} (each : List.Forall₂ Swaps as bs)
    (front : List Formula) : Swaps (.node label (front ++ as)) (.node label (front ++ bs)) := by
  induction each generalizing front with
  | nil => exact .refl
  | @cons f g as bs first _ ih =>
    have here : Swaps (.node label (front ++ f :: as)) (.node label (front ++ g :: as)) :=
      Relation.ReflTransGen.lift (fun x => node label (front ++ x :: as))
        (fun _ _ => Swap.inside label front as) f g first
    have others := ih (front ++ [g])
    simp only [List.append_assoc, List.singleton_append] at others
    exact here.trans others

mutual

/-- Swaps lead from a formula to every one that is equal up to the order of operands: first the
arguments are made equal, one by one, and then they are put in order. -/
theorem Reordered.swaps : {f g : Formula} → Reordered f g → Swaps f g
  | .node label _, _, h => by
    cases h with
    | @node _ _ bs cs each perm kept =>
      have below : Swaps (.node label _) (.node label cs) :=
        swaps_of_forall₂ (forall₂_swaps each) []
      cases kind : isUnordered label with
      | false =>
        obtain rfl := kept kind
        exact below
      | true => exact below.trans (swaps_of_perm (isUnordered_iff.mp kind) perm [])

theorem forall₂_swaps : {fs gs : List Formula} →
    List.Forall₂ Reordered fs gs → List.Forall₂ Swaps fs gs
  | [], _, h => by
    cases h
    exact .nil
  | _ :: _, _, h => by
    cases h with
    | cons first rest => exact .cons first.swaps (forall₂_swaps rest)

end

theorem isEquivalent_equivalence : Equivalence fun f g : Formula => f.isEquivalent g = true where
  refl f := (isEquivalent_iff f f).mpr (Reordered.refl f)
  symm {f g} h := (isEquivalent_iff g f).mpr ((isEquivalent_iff f g).mp h).symm
  trans {f g h} fg gh :=
    (isEquivalent_iff f h).mpr (((isEquivalent_iff f g).mp fg).trans ((isEquivalent_iff g h).mp gh))

/-- The comparison holds exactly between formulas that swaps of operands connect, and so it is an
equivalence. -/
theorem isEquivalent_iff_swaps :
    (∀ f g : Formula, f.isEquivalent g = true ↔ Swaps f g) ∧
      Equivalence fun f g : Formula => f.isEquivalent g = true := by
  refine ⟨fun f g => ?_, isEquivalent_equivalence⟩
  rw [isEquivalent_iff f g]
  exact ⟨Reordered.swaps, Swaps.reordered⟩

end FolGraph.Formula
