import FolGraph.Formula.Basic
import FolGraph.Json.Basic
import FolGraph.Json.Reader

/-!
Formulas as JSON. A formula is written as an object with its label under `value` and its arguments
under `child`. It is read from such an object, in which `child` may be missing, or from an array
of the two. Each level of a formula opens two brackets.
-/

namespace FolGraph.Formula

open Json (Draft Read ReadError Glyph)

mutual

def toJson : Formula → Json
  | .node label args => .object [("value", .string label), ("child", .array (allToJson args))]

def allToJson : List Formula → List Json
  | [] => []
  | f :: fs => f.toJson :: allToJson fs

end

def wanted : String := "struct AstNode"

mutual

/-- Reads a formula; `depth` is how many brackets may still be opened. -/
def ofDraft (depth : Nat) : Draft → Read Formula
  | .array items closed =>
    match depth with
    | 0 => .error .malformed
    | depth + 1 => ofItems depth closed items
  | .object members closed =>
    match depth with
    | 0 => .error .malformed
    | depth + 1 => ofMembers depth closed none none members
  | d => .error (d.unexpected wanted)

/-- Reads the label and, if there are any, the arguments. -/
def ofItems (depth : Nat) (closed : Bool) : List Draft → Read Formula
  | [] => Draft.close closed (.error (.mismatch (.invalidLength 0 (wanted ++ " with 2 elements"))))
  | [label] => do
    let label ← label.text
    Draft.close closed (.ok (.node label []))
  | label :: args :: rest => do
    let label ← label.text
    let args ← argsOfDraft depth args
    Draft.close (closed && rest.isEmpty) (.ok (.node label args))

/-- Reads the members of an object, with the label and the arguments read so far. -/
def ofMembers (depth : Nat) (closed : Bool) (label : Option String)
    (args : Option (List Formula)) : List (Draft × Draft) → Read Formula
  | [] => Draft.close closed do
    let label ← Json.required "value" label
    .ok (.node label (args.getD []))
  | (key, value) :: rest => do
    let name ← Json.keyOf key
    if name = "value" then
      let label ← Json.once "value" label value.text
      ofMembers depth closed label args rest
    else if name = "child" then
      let args ← Json.once "child" args (argsOfDraft depth value)
      ofMembers depth closed label args rest
    else
      value.skip
      ofMembers depth closed label args rest

def argsOfDraft (depth : Nat) : Draft → Read (List Formula)
  | .array items closed =>
    match depth with
    | 0 => .error .malformed
    | depth + 1 => listOfDrafts depth closed items
  | d => .error (d.unexpected "a sequence")

def listOfDrafts (depth : Nat) (closed : Bool) : List Draft → Read (List Formula)
  | [] => Draft.close closed (.ok [])
  | d :: ds => do
    let f ← ofDraft depth d
    let fs ← listOfDrafts depth closed ds
    .ok (f :: fs)

end

/-- The formula that a JSON text holds. -/
def ofJsonText (text : String) : Read Formula := do
  let (draft, rest) := Draft.ofText text.toList
  let f ← ofDraft Json.maxDepth draft
  Json.finish rest
  .ok f

end FolGraph.Formula
