import FolGraph.Kind
import FolGraph.Text.Uppercase

/-!
The symbols of first-order logic that labels are made of, and the families they fall into.
Quantifiers declare variables in all arguments but the last; the unordered operators have
arguments whose order carries no meaning; every other label is an ordinary application.
-/

namespace FolGraph

/-- The quantifiers, `!` for all and `?` exists. -/
def isQuantifier (label : String) : Bool :=
  label == "!" || label == "?"

/-- The connectives and equality symbols. -/
def isUnordered (label : String) : Bool :=
  label == "|" || label == "&" || label == "~" || label == "=" || label == "!="

/-- The kind of a label: one of the seven symbols, else a variable if the label begins with an
uppercase character, else a predicate or function. -/
def Kind.ofLabel (label : String) : Kind :=
  if label == "&" then .conjunction
  else if label == "|" then .disjunction
  else if label == "~" then .negation
  else if label == "!" then .universal
  else if label == "?" then .existential
  else if label == "=" then .equality
  else if label == "!=" then .inequality
  else match label.toList with
    | c :: _ => if Text.isUppercase c then .var else .application
    | [] => .application

theorem isQuantifier_iff {label : String} :
    isQuantifier label = true ↔ label = "!" ∨ label = "?" := by
  simp [isQuantifier]

/-- No label is both a quantifier and an unordered operator. -/
theorem isUnordered_eq_false_of_isQuantifier {label : String} (h : isQuantifier label = true) :
    isUnordered label = false := by
  simp only [isQuantifier, Bool.or_eq_true, beq_iff_eq] at h
  rcases h with rfl | rfl <;> decide

end FolGraph
