/-!
The values of TOML documents, and tables under construction. The entries of a table have distinct
keys and keep their order. A table comes about by its own header, by the header of a table below
it, or by a key of many parts; which of these decides how it may be extended later. No value and
no table is ever defined twice.
-/

namespace FolGraph.Toml

inductive Value where
  | string (s : String)
  | integer (i : Int)
  | float (bits : UInt64)
  | boolean (b : Bool)
  | datetime
  | array (items : List Value)
  | table (entries : List (String × Value))
  deriving Repr, Inhabited

/-- How a table came about. -/
inductive Origin where
  /-- By a header of its own. -/
  | header
  /-- By a header of a table below it. -/
  | implied
  /-- By a key of many parts. -/
  | dotted
  deriving DecidableEq, Repr

/-- An entry of a table under construction. -/
inductive Item where
  | value (v : Value)
  | table (origin : Origin) (entries : List (String × Item))
  /-- The tables that headers in double brackets define. -/
  | tables (elements : List (List (String × Item)))
  deriving Inhabited

abbrev Entries := List (String × Item)

namespace Item

mutual

/-- The value of an item; how its tables came about no longer matters. -/
def toValue : Item → Value
  | .value v => v
  | .table _ entries => .table (toEntries entries)
  | .tables elements => .array (toTables elements)

def toEntries : List (String × Item) → List (String × Value)
  | [] => []
  | (key, item) :: rest => (key, item.toValue) :: toEntries rest

def toTables : List (List (String × Item)) → List Value
  | [] => []
  | entries :: rest => .table (toEntries entries) :: toTables rest

end

end Item

namespace Entries

def find? (es : Entries) (key : String) : Option Item := es.lookup key

/-- Replaces the entry of a key. -/
def replace (es : Entries) (key : String) (item : Item) : Entries :=
  es.map fun e => if e.1 = key then (key, item) else e

def remove (es : Entries) (key : String) : Entries := es.filter (·.1 != key)

/-- Changes the table at the end of a path; tables that are missing come about as told. A key of
many parts does not lead through a table with a header of its own. -/
def edit (missing : Origin) (change : Origin → Entries → Option Entries) :
    Origin → List String → Entries → Option Entries
  | origin, [], es => change origin es
  | _, key :: path, es =>
    match es.find? key with
    | none => do
      let sub ← edit missing change missing path []
      some (es ++ [(key, .table missing sub)])
    | some (.value _) => none
    | some (.table origin sub) =>
      if missing = .dotted && origin = .header then none
      else do
        let sub ← edit missing change origin path sub
        some (es.replace key (.table origin sub))
    | some (.tables elements) => do
      let last ← elements.getLast?
      let last ← edit missing change .header path last
      some (es.replace key (.tables (elements.dropLast ++ [last])))

/-- Adds a value under a key, given in parts. A key of many parts ends in a table that such keys
have made. -/
def insert (es : Entries) (key : List String) (v : Value) : Option Entries := do
  let name ← key.getLast?
  let path := key.dropLast
  edit .dotted (fun origin es =>
    if !path.isEmpty && origin != .dotted then none
    else match es.find? name with
      | some _ => none
      | none => some (es ++ [(name, .value v)])) .header path es

/-- Begins the table of a header. A table that was only implied so far keeps its entries and moves
to the end of the table around it. -/
def beginTable (es : Entries) (key : List String) : Option Entries := do
  let name ← key.getLast?
  edit .implied (fun _ es =>
    match es.find? name with
    | none => some (es ++ [(name, .table .header [])])
    | some (.table .implied sub) => some (es.remove name ++ [(name, .table .header sub)])
    | some _ => none) .header key.dropLast es

/-- Begins the next table of a header in double brackets. -/
def beginElement (es : Entries) (key : List String) : Option Entries := do
  let name ← key.getLast?
  edit .implied (fun _ es =>
    match es.find? name with
    | none => some (es ++ [(name, .tables [[]])])
    | some (.tables elements) => some (es.replace name (.tables (elements ++ [[]])))
    | some _ => none) .header key.dropLast es

/-- Adds a value to the table that a header has begun. -/
def insertBelow (es : Entries) (header key : List String) (v : Value) : Option Entries :=
  edit .implied (fun _ es => es.insert key v) .header header es

end Entries

end FolGraph.Toml
