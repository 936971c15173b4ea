import FolGraph.Graph.Stored
import FolGraph.Json.Basic
import FolGraph.Json.Reader

/-!
Graphs as JSON: an object of nodes and edges, each of them an object of its fields. What is
written is the list of nodes and the list of arcs; reading a graph checks that the lists make one.
-/

namespace FolGraph

open Json (Draft Read ReadError)

namespace Node

def toJson (n : Node) : Json :=
  .object [("id", .number n.id), ("kind", .string n.kind.storedName), ("label", .string n.label)]

def wanted : String := "struct GraphNode"

def kindOfDraft (depth : Nat) : Draft → Read Kind :=
  Draft.constant Kind.ofStoredName? (Kind.all.map Kind.storedName) depth

/-- The fields of a node that have been read so far. -/
structure Fields where
  id : Option Nat
  kind : Option Kind
  label : Option String

def ofMembers (depth : Nat) (closed : Bool) (got : Fields) : List (Draft × Draft) → Read Node
  | [] => Draft.close closed do
    let id ← Json.required "id" got.id
    let kind ← Json.required "kind" got.kind
    let label ← Json.required "label" got.label
    .ok ⟨id, kind, label⟩
  | (key, value) :: rest => do
    let name ← Json.keyOf key
    if name = "id" then
      let id ← Json.once "id" got.id value.word32
      ofMembers depth closed { got with id } rest
    else if name = "kind" then
      let kind ← Json.once "kind" got.kind (kindOfDraft depth value)
      ofMembers depth closed { got with kind } rest
    else if name = "label" then
      let label ← Json.once "label" got.label value.text
      ofMembers depth closed { got with label } rest
    else
      value.skip
      ofMembers depth closed got rest

def ofItems (depth : Nat) (closed : Bool) : List Draft → Read Node
  | id :: kind :: label :: rest => do
    let id ← id.word32
    let kind ← kindOfDraft depth kind
    let label ← label.text
    Draft.close (closed && rest.isEmpty) (.ok ⟨id, kind, label⟩)
  | [id, kind] => do
    let _ ← id.word32
    let _ ← kindOfDraft depth kind
    Draft.close closed (short 2)
  | [id] => do
    let _ ← id.word32
    Draft.close closed (short 1)
  | [] => Draft.close closed (short 0)
where
  /-- Reports an array with too few items. -/
  short (n : Nat) : Read Node :=
    .error (.mismatch (.invalidLength n (wanted ++ " with 3 elements")))

def ofDraft (depth : Nat) (d : Draft) : Read Node :=
  match depth, d with
  | depth + 1, .object members closed => ofMembers depth closed ⟨none, none, none⟩ members
  | depth + 1, .array items closed => ofItems depth closed items
  | 0, .object _ _ => .error .malformed
  | 0, .array _ _ => .error .malformed
  | _, d => .error (d.unexpected wanted)

end Node

namespace Edge

def toJson (e : Edge) : Json :=
  .object [("source", .number e.source), ("target", .number e.target),
    ("kind", .string e.role.storedName)]

def wanted : String := "struct GraphEdge"

def roleOfDraft (depth : Nat) : Draft → Read Role :=
  Draft.constant Role.ofStoredName? (Role.all.map Role.storedName) depth

/-- The fields of an arc that have been read so far. -/
structure Fields where
  source : Option Nat
  target : Option Nat
  role : Option Role

def ofMembers (depth : Nat) (closed : Bool) (got : Fields) : List (Draft × Draft) → Read Edge
  | [] => Draft.close closed do
    let source ← Json.required "source" got.source
    let target ← Json.required "target" got.target
    let role ← Json.required "kind" got.role
    .ok ⟨source, target, role⟩
  | (key, value) :: rest => do
    let name ← Json.keyOf key
    if name = "source" then
      let source ← Json.once "source" got.source value.word32
      ofMembers depth closed { got with source } rest
    else if name = "target" then
      let target ← Json.once "target" got.target value.word32
      ofMembers depth closed { got with target } rest
    else if name = "kind" then
      let role ← Json.once "kind" got.role (roleOfDraft depth value)
      ofMembers depth closed { got with role } rest
    else
      value.skip
      ofMembers depth closed got rest

def ofItems (depth : Nat) (closed : Bool) : List Draft → Read Edge
  | source :: target :: role :: rest => do
    let source ← source.word32
    let target ← target.word32
    let role ← roleOfDraft depth role
    Draft.close (closed && rest.isEmpty) (.ok ⟨source, target, role⟩)
  | [source, target] => do
    let _ ← source.word32
    let _ ← target.word32
    Draft.close closed (short 2)
  | [source] => do
    let _ ← source.word32
    Draft.close closed (short 1)
  | [] => Draft.close closed (short 0)
where
  /-- Reports an array with too few items. -/
  short (n : Nat) : Read Edge :=
    .error (.mismatch (.invalidLength n (wanted ++ " with 3 elements")))

def ofDraft (depth : Nat) (d : Draft) : Read Edge :=
  match depth, d with
  | depth + 1, .object members closed => ofMembers depth closed ⟨none, none, none⟩ members
  | depth + 1, .array items closed => ofItems depth closed items
  | 0, .object _ _ => .error .malformed
  | 0, .array _ _ => .error .malformed
  | _, d => .error (d.unexpected wanted)

end Edge

namespace Graph

def toJson (g : Graph) : Json :=
  .object [("nodes", .array (g.nodes.map Node.toJson)), ("edges", .array (g.edges.map Edge.toJson))]

def wanted : String := "struct RawGraph"

/-- Reads an array of parts of a graph. -/
def partsOfDraft {α : Type} (part : Nat → Draft → Read α) (depth : Nat) : Draft → Read (List α)
  | .array items closed =>
    match depth with
    | 0 => .error .malformed
    | depth + 1 => Draft.list (part depth) closed items
  | d => .error (d.unexpected "a sequence")

/-- The nodes and the arcs of a graph, as read. -/
structure Parts where
  nodes : List Node
  edges : List Edge

def partsOfMembers (depth : Nat) (closed : Bool) (nodes : Option (List Node))
    (edges : Option (List Edge)) : List (Draft × Draft) → Read Parts
  | [] => Draft.close closed do
    let nodes ← Json.required "nodes" nodes
    let edges ← Json.required "edges" edges
    .ok ⟨nodes, edges⟩
  | (key, value) :: rest => do
    let name ← Json.keyOf key
    if name = "nodes" then
      let nodes ← Json.once "nodes" nodes (partsOfDraft Node.ofDraft depth value)
      partsOfMembers depth closed nodes edges rest
    else if name = "edges" then
      let edges ← Json.once "edges" edges (partsOfDraft Edge.ofDraft depth value)
      partsOfMembers depth closed nodes edges rest
    else
      value.skip
      partsOfMembers depth closed nodes edges rest

def partsOfItems (depth : Nat) (closed : Bool) : List Draft → Read Parts
  | nodes :: edges :: rest => do
    let nodes ← partsOfDraft Node.ofDraft depth nodes
    let edges ← partsOfDraft Edge.ofDraft depth edges
    Draft.close (closed && rest.isEmpty) (.ok ⟨nodes, edges⟩)
  | [nodes] => do
    let _ ← partsOfDraft Node.ofDraft depth nodes
    Draft.close closed (short 1)
  | [] => Draft.close closed (short 0)
where
  /-- Reports an array with too few items. -/
  short (n : Nat) : Read Parts :=
    .error (.mismatch (.invalidLength n (wanted ++ " with 2 elements")))

def partsOfDrafts (depth : Nat) (d : Draft) : Read Parts :=
  match depth, d with
  | depth + 1, .object members closed => partsOfMembers depth closed none none members
  | depth + 1, .array items closed => partsOfItems depth closed items
  | 0, .object _ _ => .error .malformed
  | 0, .array _ _ => .error .malformed
  | _, d => .error (d.unexpected wanted)

/-- Why a JSON text holds no graph. -/
inductive TextError where
  | unreadable (e : ReadError)
  | unsound (e : StoredError)
  deriving DecidableEq, Repr

def TextError.message : TextError → String
  | .unreadable e => e.message
  | .unsound e => e.message

/-- The graph that a JSON text holds. The lists are checked as soon as they are complete, before
what follows them in the text. -/
def ofJsonText (text : String) : Except TextError Graph :=
  let (draft, rest) := Draft.ofText text.toList
  match partsOfDrafts Json.maxDepth draft with
  | .error e => .error (.unreadable e)
  | .ok parts =>
    match ofStored parts.nodes parts.edges with
    | .error e => .error (.unsound e)
    | .ok g =>
      match Json.finish rest with
      | .ok () => .ok g
      | .error e => .error (.unreadable e)

end Graph

end FolGraph
