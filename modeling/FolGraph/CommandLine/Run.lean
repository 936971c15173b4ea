import FolGraph.Batch
import FolGraph.CommandLine.Arguments

/-!
What the commands do: an exit code, what is printed, and the files afterwards.
-/

namespace FolGraph.CommandLine

/-- The outcome of a command. -/
structure Result where
  exitCode : UInt8
  output : ByteArray
  /-- The lines of messages. -/
  messages : List String
  files : Files

/-- The outcome of a command that ends with a message. -/
def Result.failure (fs : Files) (message : String) : Result :=
  ⟨1, ByteArray.empty, ["Error: " ++ message], fs⟩

/-- The settings of a file, or the defaults if there is none. A file that cannot be read is
reported with its cause twice, as the cause of the message and as part of it. -/
def settings (fs : Files) : Option String → Except String Settings
  | none => .ok {}
  | some path =>
    match fs.loadSettings path with
    | .ok s => .ok s
    | .error (.unreadableSettings path cause) =>
      .error ((LoadError.unreadableSettings path cause).message ++ ": " ++ cause.message)
    | .error e => .error e.message

/-- The line for a formula that was not converted. -/
def failureLine (f : FailedFormula) : String :=
  "[tptp2graph] #" ++ toString f.index ++ " " ++ f.path ++ ": " ++ f.cause.message

/-- The line that ends a run. -/
def summaryLine (r : Report) (directory : String) : String :=
  "[tptp2graph] Converted " ++ toString r.converted ++ " formulas into " ++ directory ++ " (" ++
    toString r.failed.length ++ " failed)\n"

/-- Settings with those of the command line put over them; switches can only be turned on. -/
def override (s : Settings) (format : Option Export.Format) (encoding : Option Export.Encoding)
    (workers : Option Nat) (failFast verify strict : Bool) : Settings :=
  { exporting :=
      { format := format.getD s.exporting.format
        encoding := encoding.getD s.exporting.encoding }
    batch :=
      { workers := workers.getD s.batch.workers
        failFast := s.batch.failFast || failFast
        verifyRoundTrip := s.batch.verifyRoundTrip || verify }
    decoding := { strictArity := s.decoding.strictArity || strict } }

def runConvert (fs : Files) (s : Settings) (list directory : String) : Result :=
  match (Batch.ofSettings s directory).runList fs list with
  | (fs, .error e) => .failure fs e.message
  | (fs, .ok report) =>
    ⟨if report.isSuccess then 0 else 1, (summaryLine report directory).toUTF8,
      report.failed.map failureLine, fs⟩

def runDecode (fs : Files) (path : String) (strict : Bool) : Result :=
  match fs.loadGraph path with
  | .error e => .failure fs e.message
  | .ok g =>
    match g.decode strict with
    | .error e => .failure fs ("Cannot decode " ++ path ++ ": " ++ e.message)
    | .ok f => ⟨0, (f.toJson.pretty ++ "\n").toUTF8, [], fs⟩

/-- Exports one formula; records are shown as JSON. -/
def runInspect (fs : Files) (path : String) (format : Export.Format) : Result :=
  match fs.loadFormula path with
  | .error e => .failure fs e.message
  | .ok f => ⟨0, Export.render format .json f.encode ++ "\n".toUTF8, [], fs⟩

def runCommand (fs : Files) (s : Settings) : Command → Result
  | .convert list directory format encoding workers failFast verify strict =>
    runConvert fs (override s format encoding workers failFast verify strict) list directory
  | .decode path strict => runDecode fs path (strict || s.decoding.strictArity)
  | .inspect path format => runInspect fs path format

def versionLine : String := "tptp2graph 0.1.0\n"

def usage : String :=
  "Usage: tptp2graph [-v] [-c FILE] COMMAND\n\n" ++
  "convert -l LIST -o DIRECTORY [-f FORMAT] [-e ENCODING] [-w COUNT]\n" ++
  "        [--fail-fast] [--verify] [--strict-arity]\n" ++
  "decode -g GRAPH [--strict-arity]\n" ++
  "inspect -a FORMULA [-f FORMAT]\n"

/-- Runs the program on its arguments. Arguments that are not valid end it with the code 2. -/
def run (fs : Files) (args : List String) : Result :=
  match request? args with
  | none => ⟨2, ByteArray.empty, [usage], fs⟩
  | some .version => ⟨0, versionLine.toUTF8, [], fs⟩
  | some .help => ⟨0, usage.toUTF8, [], fs⟩
  | some (.run path command) =>
    match settings fs path with
    | .error message => .failure fs message
    | .ok s => runCommand fs s command

end FolGraph.CommandLine
