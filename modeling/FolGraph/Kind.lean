/-!
The closed classification of graph nodes. A kind has an ordinal, which is its position in every
export, a display name for messages, and a stored name for graph files.
-/

namespace FolGraph

/-- What a node of a formula graph stands for. -/
inductive Kind where
  | conjunction
  | disjunction
  | negation
  | universal
  | existential
  | equality
  | inequality
  | var
  | application
  deriving DecidableEq, Repr, Inhabited

namespace Kind

/-- All kinds in the order of their ordinals. -/
def all : List Kind :=
  [.conjunction, .disjunction, .negation, .universal, .existential, .equality, .inequality,
    .var, .application]

def ordinal : Kind → Nat
  | .conjunction => 0
  | .disjunction => 1
  | .negation => 2
  | .universal => 3
  | .existential => 4
  | .equality => 5
  | .inequality => 6
  | .var => 7
  | .application => 8

/-- The name shown in messages. -/
def displayName : Kind → String
  | .conjunction => "AND"
  | .disjunction => "OR"
  | .negation => "NOT"
  | .universal => "FOR_ALL"
  | .existential => "EXISTS"
  | .equality => "EQUALITY"
  | .inequality => "INEQUALITY"
  | .var => "VARIABLE"
  | .application => "PREDICATE_OR_FUNCTION"

/-- The name written in graph files. -/
def storedName : Kind → String
  | .conjunction => "And"
  | .disjunction => "Or"
  | .negation => "Not"
  | .universal => "ForAll"
  | .existential => "Exists"
  | .equality => "Equality"
  | .inequality => "Inequality"
  | .var => "Variable"
  | .application => "PredicateOrFunction"

/-- The kind with a given stored name. -/
def ofStoredName? (name : String) : Option Kind :=
  all.find? fun k => k.storedName == name

theorem ofStoredName?_storedName (k : Kind) : ofStoredName? k.storedName = some k := by
  cases k <;> decide

theorem mem_all (k : Kind) : k ∈ all := by
  cases k <;> decide

theorem ordinal_injective {k l : Kind} (h : k.ordinal = l.ordinal) : k = l := by
  cases k <;> cases l <;> simp_all [ordinal]

end Kind

end FolGraph
