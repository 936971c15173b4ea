/-!
The layouts that graphs are exported in, and the encodings of the layouts that are records. Names
are recognised in any case; no character outside ASCII has a lower-case form that occurs in one of
them, so ASCII case is all that matters.
-/

namespace FolGraph.Export

/-- The layout of an exported graph. -/
inductive Format where
  /-- Node kinds and typed edges as ordinals. -/
  | pyg
  /-- One-hot node features and edges without roles. -/
  | dgl
  /-- A drawing. -/
  | dot
  deriving DecidableEq, Repr, Inhabited

/-- The byte encoding of a record. -/
inductive Encoding where
  | json
  | bincode
  deriving DecidableEq, Repr, Inhabited

def lowerCase (s : String) : String := String.ofList (s.toList.map Char.toLower)

namespace Format

def name : Format → String
  | .pyg => "pyg"
  | .dgl => "dgl"
  | .dot => "dot"

/-- The format with a given name or alias. -/
def ofName? (s : String) : Option Format :=
  let s := lowerCase s
  if s = "pyg" || s = "torch_geometric" then some .pyg
  else if s = "dgl" then some .dgl
  else if s = "dot" || s = "graphviz" then some .dot
  else none

/-- What is said of a name that no format has. -/
def unknown (s : String) : String := "unknown export format '" ++ s ++ "' (pyg, dgl, dot)"

end Format

namespace Encoding

def name : Encoding → String
  | .json => "json"
  | .bincode => "bincode"

/-- The encoding with a given name or alias. -/
def ofName? (s : String) : Option Encoding :=
  let s := lowerCase s
  if s = "json" then some .json
  else if s = "bincode" || s = "bin" then some .bincode
  else none

/-- What is said of a name that no encoding has. -/
def unknown (s : String) : String := "unknown encoding '" ++ s ++ "' (json, bincode)"

end Encoding

/-- The extension of exported files; a drawing has no other encoding than its text. -/
def extension : Format → Encoding → String
  | .dot, _ => "dot"
  | _, .json => "json"
  | _, .bincode => "bin"

end FolGraph.Export
