import FolGraph.Formula.Basic
import FolGraph.Symbol

/-!
The printed form of a formula: `~ p`, `! [X, Y] : p`, `(p & q)`, and `p(X, c)` for everything else.
An operator that has too few arguments for its own form is printed like an application.
-/

namespace FolGraph.Formula

/-- Lays out a label and the printed forms of its arguments. -/
def layout (label : String) (parts : List (List Char)) : List Char :=
  let name := label.toList
  match parts with
  | [] => name
  | first :: rest =>
    if label == "~" && rest.isEmpty then name ++ " ".toList ++ first
    else if isQuantifier label && !rest.isEmpty then
      name ++ " [".toList ++ List.intercalate ", ".toList (first :: rest).dropLast ++
        "] : ".toList ++ (first :: rest).getLastD []
    else if isUnordered label && !rest.isEmpty then
      "(".toList ++ List.intercalate (" ".toList ++ name ++ " ".toList) (first :: rest) ++
        ")".toList
    else name ++ "(".toList ++ List.intercalate ", ".toList (first :: rest) ++ ")".toList

mutual

/-- The characters of the printed form. -/
def chars : Formula → List Char
  | .node label args => layout label (charsAll args)

def charsAll : List Formula → List (List Char)
  | [] => []
  | f :: fs => f.chars :: charsAll fs

end

/-- The printed form. -/
def display (f : Formula) : String := String.ofList f.chars

end FolGraph.Formula
