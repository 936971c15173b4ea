import FolGraph.CommandLine.Run

/-!
The paths that a request reads or writes. Which formulas and outputs there are is known only once
the list and the settings are.
-/

namespace FolGraph.CommandLine

/-- The formulas that a list names and the files that they are converted to. -/
def convertedPaths (fs : Files) (settings : Settings) (list directory : String) : List String :=
  match fs.loadList list with
  | .error _ => []
  | .ok problems =>
    problems ++ (List.range problems.length).map (Batch.ofSettings settings directory).outputPath

def commandPaths (fs : Files) (s : Settings) : Command → List String
  | .convert list directory format encoding workers failFast verify strict =>
    [list, directory] ++
      convertedPaths fs (override s format encoding workers failFast verify strict) list directory
  | .decode graph _ => [graph]
  | .inspect formula _ => [formula]

/-- The paths that a request reads or writes, as far as the files tell. -/
def Request.paths (fs : Files) : Request → List String
  | .run path command =>
    path.toList ++ commandPaths fs ((settings fs path).toOption.getD {}) command
  | .version => []
  | .help => []

end FolGraph.CommandLine
