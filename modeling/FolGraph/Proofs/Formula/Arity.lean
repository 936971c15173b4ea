import FolGraph.Formula.Arity
import FolGraph.Proofs.Formula.Position

/-!
# Arities

`KeepsArity` says of a single node what its label asks for. `hasArity_iff` says that the test of a
whole formula, which goes through it once, asks this of the node at every position.
-/

namespace FolGraph.Formula

/-- A node has as many arguments as its label asks for, and its declarations are leaves. -/
structure KeepsArity (s : Formula) : Prop where
  negation : s.label = "~" → s.args.length = 1
  equality : s.label = "=" ∨ s.label = "!=" → s.args.length = 2
  quantifier : s.label = "!" ∨ s.label = "?" → 2 ≤ s.args.length
  declarations : s.label = "!" ∨ s.label = "?" → ∀ d ∈ s.args.dropLast, d.args = []

/-- The number of arguments is admitted exactly if it is the one that the label asks for. -/
theorem admits_iff {label : String} {count : Nat} :
    (Arity.ofLabel? label).all (·.admits count) = true ↔
      (label = "~" → count = 1) ∧ (label = "=" ∨ label = "!=" → count = 2) ∧
        (label = "!" ∨ label = "?" → 2 ≤ count) := by
  unfold Arity.ofLabel?
  by_cases negation : label = "~"
  · subst negation
    simp [Arity.admits]
  · by_cases equality : label = "=" ∨ label = "!="
    · rcases equality with rfl | rfl <;> simp [Arity.admits]
    · have other : ¬ (label == "=" || label == "!=") = true := by simpa using equality
      rw [if_neg (by simpa using negation), if_neg other]
      by_cases quantifier : isQuantifier label = true
      · simp [quantifier, isQuantifier_iff.mp quantifier, negation, equality, Arity.admits]
      · simp [quantifier, negation, equality, ← isQuantifier_iff]

theorem isQuantifier_eq_false_of_ofLabel?_eq_none {label : String}
    (none : Arity.ofLabel? label = none) : isQuantifier label = false := by
  unfold Arity.ofLabel? at none
  split at none
  · cases none
  · split at none
    · cases none
    · simpa using none

theorem keepsArity_iff {s : Formula} :
    s.KeepsArity ↔ (Arity.ofLabel? s.label).all (·.admits s.args.length) = true ∧
      (isQuantifier s.label = true → ∀ d ∈ s.args.dropLast, d.args = []) := by
  rw [admits_iff, isQuantifier_iff]
  constructor
  · rintro ⟨negation, equality, quantifier, declarations⟩
    exact ⟨⟨negation, equality, quantifier⟩, declarations⟩
  · rintro ⟨⟨negation, equality, quantifier⟩, declarations⟩
    exact ⟨negation, equality, quantifier, declarations⟩

theorem hasArity_node_iff {label : String} {args : List Formula} :
    (node label args).hasArity = true ↔
      (node label args).KeepsArity ∧ hasArityAll args = true := by
  rw [hasArity, keepsArity_iff]
  simp only [Bool.and_eq_true, Bool.or_eq_true, Bool.not_eq_true', List.all_eq_true, isLeaf,
    List.isEmpty_iff, label_node, args_node]
  refine and_congr_left fun _ => and_congr_right fun _ => ?_
  cases isQuantifier label <;> simp

mutual

/-- A formula passes the test exactly if the node at every position keeps its arity. -/
theorem hasArity_iff : (f : Formula) →
    (f.hasArity = true ↔ ∀ p s, f.sub? p = some s → s.KeepsArity)
  | .node label args => by
    rw [hasArity_node_iff, hasArityAll_iff args]
    constructor
    · rintro ⟨here, below⟩ p s hs
      cases p with
      | nil =>
        obtain rfl := Option.some.inj ((sub?_nil _).symm.trans hs)
        exact here
      | cons i p =>
        obtain ⟨a, ha, hs⟩ := sub?_cons_eq_some.mp hs
        exact below i a ha p s hs
    · intro all
      refine ⟨all [] _ (sub?_nil _), fun i a ha p s hs => all (i :: p) s ?_⟩
      exact sub?_cons_eq_some.mpr ⟨a, ha, hs⟩

theorem hasArityAll_iff : (fs : List Formula) →
    (hasArityAll fs = true ↔
      ∀ (i : Nat) (a : Formula), fs[i]? = some a →
        ∀ p s, a.sub? p = some s → s.KeepsArity)
  | [] => by simp [hasArityAll]
  | f :: fs => by
    rw [hasArityAll, Bool.and_eq_true, hasArity_iff f, hasArityAll_iff fs]
    constructor
    · rintro ⟨first, rest⟩ i a ha
      cases i with
      | zero =>
        obtain rfl := Option.some.inj ha
        exact first
      | succ i => exact rest i a ha
    · intro all
      exact ⟨all 0 f rfl, fun i a ha => all (i + 1) a ha⟩

end

end FolGraph.Formula
