import FolGraph.Formula.Basic
import FolGraph.Symbol

/-!
The numbers of arguments that operators take: one for `~`, two for `=` and `!=`, and at least two
for a quantifier, whose declarations moreover have no arguments of their own.
-/

namespace FolGraph

/-- How many arguments an operator takes. -/
inductive Arity where
  | exactlyOne
  | exactlyTwo
  | atLeastTwo
  deriving DecidableEq, Repr

namespace Arity

def admits : Arity → Nat → Bool
  | .exactlyOne, n => n == 1
  | .exactlyTwo, n => n == 2
  | .atLeastTwo, n => 2 ≤ n

def text : Arity → String
  | .exactlyOne => "exactly 1"
  | .exactlyTwo => "exactly 2"
  | .atLeastTwo => "at least 2"

/-- The arity of a label, if it has a fixed one. -/
def ofLabel? (label : String) : Option Arity :=
  if label == "~" then some .exactlyOne
  else if label == "=" || label == "!=" then some .exactlyTwo
  else if isQuantifier label then some .atLeastTwo
  else none

end Arity

namespace Formula

mutual

/-- Whether every operator of a formula has as many arguments as it takes and every declaration
is a leaf. -/
def hasArity : Formula → Bool
  | .node label args =>
    (Arity.ofLabel? label).all (·.admits args.length) &&
      (!isQuantifier label || args.dropLast.all isLeaf) && hasArityAll args

def hasArityAll : List Formula → Bool
  | [] => true
  | f :: fs => f.hasArity && hasArityAll fs

end

end Formula

end FolGraph
