import FolGraph.Mismatch
import FolGraph.Settings.Basic
import FolGraph.Toml.Document

/-!
Settings from TOML. Each section is a table of its fields; a field that is missing keeps its
default and an unknown one is refused. A section may also be an array of its leading fields. The
first offence in the order of the document is reported.
-/

namespace FolGraph

open Toml (Value)

/-- Why a document holds no settings. -/
inductive SettingsError where
  /-- The text is not TOML. -/
  | malformed
  | mismatch (m : Mismatch)
  /-- A name is given as neither a string nor a table. -/
  | notAName
  /-- A name is given as a table that does not have exactly one entry. -/
  | notOneEntry (count : Nat)
  /-- A name is given as a table whose only entry holds something. -/
  | notEmpty
  | notATable (type : String)
  deriving DecidableEq, Repr

/-- All numbers are shown positionally. -/
def Toml.shownNumbers : Decimal.Convention := ⟨.greater, none⟩

def SettingsError.message : SettingsError → String
  | .malformed => "malformed TOML"
  | .mismatch m => m.message Toml.shownNumbers
  | .notAName => "wanted string or table"
  | .notOneEntry 0 => "wanted exactly 1 element, found 0 elements"
  | .notOneEntry _ => "wanted exactly 1 element, more than 1 element"
  | .notEmpty => "expected empty table"
  | .notATable type => "expected table, found " ++ type

namespace Toml.Value

def found : Value → Found
  | .string s => .string s
  | .integer i => .integer i
  | .float bits => .float bits
  | .boolean b => .boolean b
  | .datetime => .map
  | .array _ => .sequence
  | .table _ => .map

/-- Reports a value that is not of the wanted type. -/
def unexpected (v : Value) (wanted : String) : SettingsError :=
  .mismatch (.invalidType v.found wanted)

def toBool : Value → Except SettingsError Bool
  | .boolean b => .ok b
  | v => .error (v.unexpected "a boolean")

def toNat : Value → Except SettingsError Nat
  | .integer i => if 0 ≤ i then .ok i.toNat else .error (.mismatch (.invalidValue i "usize"))
  | v => .error (v.unexpected "usize")

/-- Accepts what may stand beside a name in a table: an empty table or array. -/
def checkEmpty : Value → Except SettingsError Unit
  | .array [] => .ok ()
  | .table [] => .ok ()
  | .array _ => .error .notEmpty
  | .table _ => .error .notEmpty
  | .string _ => .error (.notATable "string")
  | .integer _ => .error (.notATable "integer")
  | .float _ => .error (.notATable "float")
  | .boolean _ => .error (.notATable "boolean")
  | .datetime => .error (.notATable "datetime")

/-- One of a list of names, written as a string or as a table with the name as its only key. -/
def toName {α : Type} (names : List (String × α)) : Value → Except SettingsError α
  | .string s => look s
  | .table [(key, v)] => do
    let a ← look key
    v.checkEmpty
    .ok a
  | .table entries => .error (.notOneEntry entries.length)
  | _ => .error .notAName
where
  look (name : String) : Except SettingsError α :=
    match names.lookup name with
    | some a => .ok a
    | none => .error (.mismatch (.unknownVariant name (names.map (·.1))))

end Toml.Value

/-- A record that is read from a table: its name, its fields in order, and how a field is set. -/
structure Section (α : Type) where
  name : String
  fields : List String
  initial : α
  set : α → String → Value → Except SettingsError α

namespace Section

variable {α : Type}

/-- Sets a field that a table names. -/
def setNamed (s : Section α) (a : α) (field : String × Value) : Except SettingsError α :=
  if s.fields.contains field.1 then s.set a field.1 field.2
  else .error (.mismatch (.unknownField field.1 s.fields))

/-- The key under which a date or time counts as a table. -/
def datetimeKey : String := "$__toml_private_datetime"

def ofEntries (s : Section α) (entries : List (String × Value)) : Except SettingsError α :=
  entries.foldlM s.setNamed s.initial

def ofValue (s : Section α) : Value → Except SettingsError α
  | .table entries => s.ofEntries entries
  | .array items => (s.fields.zip items).foldlM (fun a (field, v) => s.set a field v) s.initial
  | .datetime => s.ofEntries [(datetimeKey, .datetime)]
  | v => .error (v.unexpected ("struct " ++ s.name))

end Section

namespace Settings

def formatNames : List (String × Export.Format) :=
  [Export.Format.pyg, .dgl, .dot].map fun f => (f.name, f)

def encodingNames : List (String × Export.Encoding) :=
  [Export.Encoding.json, .bincode].map fun e => (e.name, e)

def exportSection : Section ExportSettings :=
  { name := "ExportConfig"
    fields := ["format", "encoding"]
    initial := {}
    set := fun s field v =>
      if field = "format" then do .ok { s with format := ← v.toName formatNames }
      else do .ok { s with encoding := ← v.toName encodingNames } }

def batchSection : Section BatchSettings :=
  { name := "BatchConfig"
    fields := ["workers", "fail_fast", "verify_round_trip"]
    initial := {}
    set := fun s field v =>
      if field = "workers" then do .ok { s with workers := ← v.toNat }
      else if field = "fail_fast" then do .ok { s with failFast := ← v.toBool }
      else do .ok { s with verifyRoundTrip := ← v.toBool } }

def decodeSection : Section DecodeSettings :=
  { name := "DecodeConfig"
    fields := ["strict_arity"]
    initial := {}
    set := fun s _ v => do .ok { s with strictArity := ← v.toBool } }

/-- The whole document, whose fields are the sections. -/
def documentSection : Section Settings :=
  { name := "Config"
    fields := ["export", "batch", "decode"]
    initial := {}
    set := fun s field v =>
      if field = "export" then do .ok { s with exporting := ← exportSection.ofValue v }
      else if field = "batch" then do .ok { s with batch := ← batchSection.ofValue v }
      else do .ok { s with decoding := ← decodeSection.ofValue v } }

/-- The settings of a document. -/
def ofDocument (entries : List (String × Value)) : Except SettingsError Settings :=
  documentSection.ofEntries entries

/-- The settings of a text. -/
def ofToml (text : String) : Except SettingsError Settings :=
  match Toml.document? text with
  | some entries => ofDocument entries
  | none => .error .malformed

end Settings

end FolGraph
