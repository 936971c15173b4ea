/-!
The roles of the arcs of a formula graph.
-/

namespace FolGraph

/-- What an arc of a formula graph says. -/
inductive Role where
  /-- From a node to one of its arguments. -/
  | ast
  /-- From an argument of an application to the next argument. -/
  | ncs
  /-- From a quantifier's declaration to an occurrence of its name. -/
  | ddg
  deriving DecidableEq, Repr, Inhabited

namespace Role

/-- All roles in the order of their ordinals. -/
def all : List Role := [.ast, .ncs, .ddg]

def ordinal : Role → Nat
  | .ast => 0
  | .ncs => 1
  | .ddg => 2

/-- The name shown in messages. -/
def displayName : Role → String
  | .ast => "AST"
  | .ncs => "NCS"
  | .ddg => "DDG"

/-- The name written in graph files. -/
def storedName : Role → String
  | .ast => "Ast"
  | .ncs => "Ncs"
  | .ddg => "Ddg"

/-- The role with a given stored name. -/
def ofStoredName? (name : String) : Option Role :=
  all.find? fun r => r.storedName == name

/-- The role with a given display name. -/
def ofDisplayName? (name : String) : Option Role :=
  all.find? fun r => r.displayName == name

theorem ofStoredName?_storedName (r : Role) : ofStoredName? r.storedName = some r := by
  cases r <;> decide

theorem ordinal_injective {r s : Role} (h : r.ordinal = s.ordinal) : r = s := by
  cases r <;> cases s <;> simp_all [ordinal]

end Role

end FolGraph
