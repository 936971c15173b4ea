import FolGraph.CommandLine.Paths

/-!
The command line on the disk: what a request touches is read, the request is run on it, and what
changed is written back.
-/

namespace FolGraph.CommandLine

def diskPath (l : Location) : String := "/" ++ "/".intercalate l

/-- Adds what lies at a location that no link leads through. -/
def observeAt (fs : Files) (l : Location) : IO Files := do
  if (fs.stored? l).isSome then return fs
  let path ← IO.FS.realPath (diskPath l)
  if ← path.isDir then return fs.putDirectory l
  else return fs.putFile l (← IO.FS.readBinFile path)

/-- Adds what lies on the disk at a location whose directory no link leads through, and returns the
location that it stands for. A link is taken to lead straight to where it ends, and a place that
cannot be read counts as empty. -/
def observeEntry (fs : Files) (l : Location) : IO (Files × Location) := do
  try
    let path := toString (← IO.FS.realPath (diskPath l))
    let real := (PathParts.ofString path).names
    let mut fs := fs
    for n in [0:real.length] do
      fs ← observeAt fs (real.take (n + 1))
    if real != l && (fs.stored? l).isNone then fs := fs.putLink l path
    return (fs, real)
  catch _ => return (fs, l)

/-- Adds what lies on the disk along a path. A file with several names is taken for several. -/
def observe (fs : Files) (path : String) : IO Files := do
  let p := PathParts.ofString path
  let mut fs := fs
  let mut l := fs.start p
  for name in p.names do
    (fs, l) ← observeEntry fs (Files.entryAt l name)
  return fs

def observeAll (fs : Files) (paths : List String) : IO Files := paths.foldlM observe fs

/-- Writes to the disk what was not there before. -/
def save (before after : Files) : IO Unit := do
  for (l, _) in after.stored do
    match before.find? l, after.find? l with
    | some (.file old), some (.file contents) =>
      if old.data ≠ contents.data then IO.FS.writeBinFile (diskPath l) contents
    | none, some (.file contents) => IO.FS.writeBinFile (diskPath l) contents
    | none, some .directory => IO.FS.createDirAll (diskPath l)
    | _, _ => pure ()

end FolGraph.CommandLine

open FolGraph CommandLine

def main (args : List String) : IO UInt32 := do
  let mut fs := Files.empty (PathParts.ofString (toString (← IO.currentDir))).names
  if let some request := request? args then
    fs ← observeAll fs (request.paths fs)
    fs ← observeAll fs (request.paths fs)
  let result := CommandLine.run fs args
  save fs result.files
  (← IO.getStdout).write result.output
  for message in result.messages do
    IO.eprintln message
  return result.exitCode.toUInt32
