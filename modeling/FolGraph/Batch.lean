import FolGraph.Load

/-!
The conversion of a list of formulas. The formula at each position of the list is written to a
file numbered with the position. A tolerant run converts what it can and reports the failures; a
run that fails fast ends at the first of them.
-/

namespace FolGraph

/-- Why a formula of a run was not converted. -/
inductive FormulaError where
  | load (cause : LoadError)
  | verify (cause : VerifyError)
  | unwritable (path : String) (cause : FileError)
  deriving DecidableEq, Repr

def FormulaError.message : FormulaError → String
  | .load cause => cause.message
  | .verify cause => cause.message
  | .unwritable path cause => "Failed to write " ++ path ++ ": " ++ cause.message

structure FailedFormula where
  index : Nat
  path : String
  cause : FormulaError
  deriving DecidableEq, Repr

/-- The outcome of a run: how many formulas were converted and which were not. -/
structure Report where
  converted : Nat
  failed : List FailedFormula
  deriving DecidableEq, Repr, Inhabited

namespace Report

def empty : Report := ⟨0, []⟩

def isSuccess (r : Report) : Bool := r.failed.isEmpty

end Report

/-- Why a run ended without a report. -/
inductive BatchError where
  | unreadableList (cause : LoadError)
  | noDirectory (path : String) (cause : FileError)
  | formula (failure : FailedFormula)
  deriving DecidableEq, Repr

def BatchError.message : BatchError → String
  | .unreadableList cause => cause.message
  | .noDirectory path cause => "Failed to create output directory " ++ path ++ ": " ++ cause.message
  | .formula f =>
    "Formula #" ++ toString f.index ++ " (" ++ f.path ++ ") failed: " ++ f.cause.message

/-- A run: how formulas are converted, where the files go and what a failure does. -/
structure Batch where
  conversion : Conversion
  directory : String
  failFast : Bool
  deriving DecidableEq, Repr

namespace Batch

def ofSettings (s : Settings) (directory : String) : Batch :=
  ⟨s.conversion, directory, s.batch.failFast⟩

/-- The path of the file for the formula at a position. -/
def outputPath (b : Batch) (index : Nat) : String :=
  PathParts.join b.directory
    (toString index ++ "." ++ Export.extension b.conversion.format b.conversion.encoding)

/-- The contents of the file for a formula that is read from a path. -/
def produce (b : Batch) (fs : Files) (path : String) : Except FormulaError ByteArray :=
  match fs.loadFormula path with
  | .error e => .error (.load e)
  | .ok f =>
    match b.conversion.convert f with
    | .error e => .error (.verify e)
    | .ok contents => .ok contents

/-- Converts the formula at a position. -/
def convertFile (b : Batch) (fs : Files) (index : Nat) (path : String) :
    Except FormulaError Files := do
  let contents ← b.produce fs path
  match fs.write (b.outputPath index) contents with
  | .ok fs => .ok fs
  | .error e => .error (.unwritable (b.outputPath index) e)

/-- Converts the formulas from a position on, whatever becomes of each. -/
def runTolerant (b : Batch) (fs : Files) (report : Report) (index : Nat) :
    List String → Files × Report
  | [] => (fs, report)
  | path :: paths =>
    match b.convertFile fs index path with
    | .ok fs =>
      b.runTolerant fs { report with converted := report.converted + 1 } (index + 1) paths
    | .error cause =>
      b.runTolerant fs { report with failed := report.failed ++ [⟨index, path, cause⟩] }
        (index + 1) paths

/-- Converts the formulas from a position on, up to the first failure. -/
def runFailFast (b : Batch) (fs : Files) (index : Nat) : List String → Files × Option FailedFormula
  | [] => (fs, none)
  | path :: paths =>
    match b.convertFile fs index path with
    | .ok fs => b.runFailFast fs (index + 1) paths
    | .error cause => (fs, some ⟨index, path, cause⟩)

/-- Converts the formulas at the given paths; the directories that were created and the files that
were written remain whatever the outcome is. -/
def run (b : Batch) (fs : Files) (paths : List String) : Files × Except BatchError Report :=
  match fs.createDirectories b.directory with
  | (fs, .error e) => (fs, .error (.noDirectory b.directory e))
  | (fs, .ok ()) =>
    if b.failFast then
      match b.runFailFast fs 0 paths with
      | (fs, none) => (fs, .ok ⟨paths.length, []⟩)
      | (fs, some failure) => (fs, .error (.formula failure))
    else
      let (fs, report) := b.runTolerant fs .empty 0 paths
      (fs, .ok report)

/-- Converts the formulas that a problem list names. -/
def runList (b : Batch) (fs : Files) (list : String) : Files × Except BatchError Report :=
  match fs.loadList list with
  | .error e => (fs, .error (.unreadableList e))
  | .ok paths => b.run fs paths

end Batch

end FolGraph
