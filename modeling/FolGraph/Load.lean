import FolGraph.Files
import FolGraph.Formula.Json
import FolGraph.Graph.Json
import FolGraph.Settings.Reader
import FolGraph.Text.Lines

/-!
What is loaded from files: lists of problems, formulas, graphs and settings.
-/

namespace FolGraph

/-- Why a file could not be loaded; each cause comes with the path as written. -/
inductive LoadError where
  | unreadableList (path : String) (cause : FileError)
  | unreadableFormula (path : String) (cause : FileError)
  | unreadableGraph (path : String) (cause : FileError)
  | unreadableSettings (path : String) (cause : FileError)
  | invalidFormula (path : String) (cause : Json.ReadError)
  | invalidGraph (path : String) (cause : Graph.TextError)
  | invalidSettings (path : String) (cause : SettingsError)
  deriving DecidableEq, Repr

namespace LoadError

/-- What was being done. -/
def context : LoadError → String
  | .unreadableList path _ => "Failed to read problem list " ++ path
  | .unreadableFormula path _ => "Failed to read AST file " ++ path
  | .unreadableGraph path _ => "Failed to read graph file " ++ path
  | .unreadableSettings path _ => "Cannot read config file " ++ path
  | .invalidFormula path _ => "Invalid AST JSON in " ++ path
  | .invalidGraph path _ => "Invalid graph JSON in " ++ path
  | .invalidSettings path _ => "Invalid config file " ++ path

/-- What went wrong. -/
def cause : LoadError → String
  | .unreadableList _ e => e.message
  | .unreadableFormula _ e => e.message
  | .unreadableGraph _ e => e.message
  | .unreadableSettings _ e => e.message
  | .invalidFormula _ e => e.message
  | .invalidGraph _ e => e.message
  | .invalidSettings _ e => e.message

def message (e : LoadError) : String := e.context ++ ": " ++ e.cause

end LoadError

/-- The paths that a problem list names: one on each line that is not blank. -/
def problemPaths (text : String) : List String :=
  (Text.trimmedLines text.toList).map String.ofList

namespace Files

def loadList (fs : Files) (path : String) : Except LoadError (List String) :=
  match fs.readText path with
  | .ok text => .ok (problemPaths text)
  | .error e => .error (.unreadableList path e)

def loadFormula (fs : Files) (path : String) : Except LoadError Formula :=
  match fs.readText path with
  | .error e => .error (.unreadableFormula path e)
  | .ok text =>
    match Formula.ofJsonText text with
    | .ok f => .ok f
    | .error e => .error (.invalidFormula path e)

def loadGraph (fs : Files) (path : String) : Except LoadError Graph :=
  match fs.readText path with
  | .error e => .error (.unreadableGraph path e)
  | .ok text =>
    match Graph.ofJsonText text with
    | .ok g => .ok g
    | .error e => .error (.invalidGraph path e)

def loadSettings (fs : Files) (path : String) : Except LoadError Settings :=
  match fs.readText path with
  | .error e => .error (.unreadableSettings path e)
  | .ok text =>
    match Settings.ofToml text with
    | .ok s => .ok s
    | .error e => .error (.invalidSettings path e)

end Files

end FolGraph
