/-!
Files, directories and links. Relative paths start at the working directory. Operations fail with
the cause that the operating system would report.

A file may have several names (hard links), and a name may stand for another path (symbolic links).
Left out are permissions, devices, pipes and other special files, and the room on a disk. A file is
written as a whole, and nothing is removed or renamed.
-/

namespace FolGraph

/-- A place as the names that lead to it from the root, which is itself the empty list. -/
abbrev Location := List String

/-- What is stored under a name. -/
inductive Stored where
  /-- The file with a number; names with the same number are names of one file. -/
  | file (number : Nat)
  | directory
  /-- Another path, which starts at the directory of the name. -/
  | link (target : String)
  deriving DecidableEq, Repr, Inhabited

structure Files where
  stored : List (Location × Stored)
  /-- The contents of files by number. -/
  contents : List (Nat × ByteArray)
  workingDirectory : Location
  deriving Inhabited

/-- What lies at a place; a file is told by its contents. -/
inductive Entry where
  | file (contents : ByteArray)
  | directory
  | link (target : String)

/-- Why an operation on a file failed. -/
inductive FileError where
  | notFound
  | alreadyExists
  | notADirectory
  | isADirectory
  | nameTooLong
  | tooManyLinks
  | nulInName
  /-- The contents of the file are not UTF-8. -/
  | notText
  deriving DecidableEq, Repr

def FileError.message : FileError → String
  | .notFound => "No such file or directory (os error 2)"
  | .alreadyExists => "File exists (os error 17)"
  | .notADirectory => "Not a directory (os error 20)"
  | .isADirectory => "Is a directory (os error 21)"
  | .nameTooLong => "File name too long (os error 36)"
  | .tooManyLinks => "Too many levels of symbolic links (os error 40)"
  | .nulInName => "file name contained an unexpected NUL byte"
  | .notText => "stream did not contain valid UTF-8"

/-- The parts of a path as written. A slash at the end adds an empty name, which stands for the
directory itself. -/
structure PathParts where
  absolute : Bool
  names : List String
  deriving DecidableEq, Repr

namespace PathParts

/-- Splits at slashes. -/
def split : List Char → List (List Char)
  | [] => [[]]
  | c :: cs =>
    if c = '/' then [] :: split cs
    else match split cs with
      | [] => [[c]]
      | name :: rest => (c :: name) :: rest

def ofString (path : String) : PathParts :=
  let cs := path.toList
  let names := ((split cs).filter (!·.isEmpty)).map String.ofList
  { absolute := cs.head? == some '/'
    names := if cs.getLast? == some '/' then names ++ [""] else names }

/-- Where a path starts that is written at a location. -/
def startAt (p : PathParts) (l : Location) : Location := if p.absolute then [] else l

/-- The path of a name within a directory, as written. -/
def join (directory name : String) : String :=
  if directory.isEmpty || directory.toList.getLast? == some '/' then directory ++ name
  else directory ++ "/" ++ name

end PathParts

namespace Files

/-! ## What lies where -/

/-- What is stored at a location; the root is always there. -/
def stored? (fs : Files) (l : Location) : Option Stored :=
  if l = [] then some .directory else fs.stored.lookup l

/-- The contents of the file with a number. -/
def bytes (fs : Files) (number : Nat) : ByteArray :=
  (fs.contents.lookup number).getD ByteArray.empty

/-- What lies at a location. -/
def find? (fs : Files) (l : Location) : Option Entry :=
  match fs.stored? l with
  | some (.file number) => some (.file (fs.bytes number))
  | some .directory => some .directory
  | some (.link target) => some (.link target)
  | none => none

/-- The number of the file at a location. -/
def number? (fs : Files) (l : Location) : Option Nat :=
  match fs.stored? l with
  | some (.file number) => some number
  | _ => none

/-- Gives a key a value, in place of the one that it had. -/
def assign {α β : Type} [BEq α] (table : List (α × β)) (key : α) (value : β) : List (α × β) :=
  if (table.lookup key).isSome then table.map fun old => if old.1 == key then (key, value) else old
  else table ++ [(key, value)]

/-- A number above those of all files. -/
def unusedNumber (fs : Files) : Nat :=
  fs.stored.foldr (fun old n => match old.2 with | .file k => max (k + 1) n | _ => n) 0

/-- Writes the file at a location, under all of its names. A new file is put where there is none. -/
def putFile (fs : Files) (l : Location) (contents : ByteArray) : Files :=
  let number := (fs.number? l).getD fs.unusedNumber
  { fs with
    stored := assign fs.stored l (.file number)
    contents := assign fs.contents number contents }

def putDirectory (fs : Files) (l : Location) : Files :=
  { fs with stored := assign fs.stored l .directory }

def putLink (fs : Files) (l : Location) (target : String) : Files :=
  { fs with stored := assign fs.stored l (.link target) }

/-- Nothing but a working directory and the directories above it. -/
def empty (workingDirectory : Location) : Files :=
  ⟨(List.range workingDirectory.length).map fun n => (workingDirectory.take (n + 1), .directory),
    [], workingDirectory⟩

/-! ## Where paths lead -/

/-- Refuses a place that is no directory. -/
def checkDirectory (fs : Files) (l : Location) : Except FileError Unit :=
  match fs.stored? l with
  | some .directory => .ok ()
  | some _ => .error .notADirectory
  | none => .error .notFound

/-- Where a name leads from a directory; the root is its own parent. -/
def entryAt (l : Location) (name : String) : Location :=
  if name = "" || name = "." then l else if name = ".." then l.dropLast else l ++ [name]

/-- The parts of a path that a system call accepts. -/
def parts (path : String) : Except FileError PathParts :=
  if path.toList.contains (Char.ofNat 0) then .error .nulInName
  else if 4095 < path.utf8ByteSize then .error .nameTooLong
  else if path.isEmpty then .error .notFound
  else .ok (PathParts.ofString path)

/-- Follows names from a location up to the first link, and hands the names of the link and those
after it on. Nothing need lie where the last name leads. A file that is to be created cannot have a
slash after its name. -/
def walkWith (fs : Files) (creating : Bool)
    (jump : Location → List String → Except FileError Location) (l : Location) :
    List String → Except FileError Location
  | [] => .ok l
  | name :: names => do
    fs.checkDirectory l
    if creating && names == [""] then .error .isADirectory
    else if 255 < name.utf8ByteSize then .error .nameTooLong
    else match fs.stored? (entryAt l name) with
      | some (.link target) => do
        let p ← parts target
        jump (p.startAt l) (p.names ++ names)
      | some _ => fs.walkWith creating jump (entryAt l name) names
      | none => if names.isEmpty then .ok (entryAt l name) else .error .notFound

/-- Follows names from a location. Links end all stretches of the way but the last, of which there
may only be so many. -/
def walk (fs : Files) (creating : Bool) : Nat → Location → List String → Except FileError Location
  | 0, _, _ => .error .tooManyLinks
  | stretches + 1, l, names => fs.walkWith creating (fs.walk creating stretches) l names

/-- A path may lead through forty links. -/
def maxStretches : Nat := 41

def start (fs : Files) (p : PathParts) : Location := p.startAt fs.workingDirectory

/-- The place that a path leads to, whether or not something lies there. It is never the place of a
link, as links are followed. -/
def place (fs : Files) (path : String) : Except FileError Location := do
  let p ← parts path
  fs.walk false maxStretches (fs.start p) p.names

/-- Where an existing path leads. -/
def locate (fs : Files) (path : String) : Except FileError Location := do
  let l ← fs.place path
  if (fs.stored? l).isSome then .ok l else .error .notFound

/-! ## Reading and writing -/

/-- The bytes of a file. -/
def read (fs : Files) (path : String) : Except FileError ByteArray := do
  let l ← fs.locate path
  match fs.find? l with
  | some (.file contents) => .ok contents
  | some .directory => .error .isADirectory
  | _ => .error .notFound

/-- The text of a file. -/
def readText (fs : Files) (path : String) : Except FileError String := do
  let bytes ← fs.read path
  match String.fromUTF8? bytes with
  | some s => .ok s
  | none => .error .notText

/-- The place that a file is written to. -/
def writePlace (fs : Files) (path : String) : Except FileError Location := do
  let p ← parts path
  let l ← fs.walk true maxStretches (fs.start p) p.names
  match fs.stored? l with
  | some (.file _) | none => .ok l
  | _ => .error .isADirectory

/-- Writes a file, in place of the contents that it had. -/
def write (fs : Files) (path : String) (contents : ByteArray) : Except FileError Files := do
  let l ← fs.writePlace path
  .ok (fs.putFile l contents)

/-! ## Creating directories -/

/-- Creates one directory. The name of a link is taken, wherever the link leads. -/
def makeDirectory (fs : Files) (p : PathParts) : Except FileError Files := do
  let l ← fs.walk false maxStretches (fs.start p) p.names.dropLast
  fs.checkDirectory l
  let name := p.names.getLastD "."
  if 255 < name.utf8ByteSize then .error .nameTooLong
  else if entryAt l name = l ++ [name] ∧ fs.stored? (l ++ [name]) = none then
    .ok (fs.putDirectory (l ++ [name]))
  else .error .alreadyExists

def isDirectory (fs : Files) (p : PathParts) : Bool :=
  match fs.walk false maxStretches (fs.start p) p.names with
  | .ok l => fs.stored? l == some .directory
  | .error _ => false

/-- What an attempt to create a directory comes to if it is refused: it does not matter if the
directory is there. -/
def settleDirectory (fs : Files) (p : PathParts) (e : FileError) : Files × Except FileError Unit :=
  (fs, if fs.isDirectory p then .ok () else .error e)

/-- Creates a directory, and before it the directories above it that are missing. Those that were
created remain if this fails. The fuel bounds the number of names. -/
def makeAll : Nat → Files → PathParts → Files × Except FileError Unit
  | 0, fs, _ => (fs, .ok ())
  | fuel + 1, fs, p =>
    if p.names.isEmpty then (fs, .ok ())
    else match fs.makeDirectory p with
      | .ok fs => (fs, .ok ())
      | .error .notFound =>
        match makeAll fuel fs { p with names := (p.names.filter (· != ".")).dropLast } with
        | (fs, .error e) => (fs, .error e)
        | (fs, .ok ()) =>
          match fs.makeDirectory p with
          | .ok fs => (fs, .ok ())
          | .error e => fs.settleDirectory p e
      | .error e => fs.settleDirectory p e

/-- Creates a directory and all directories above it; a slash at the end does not matter. The empty
path stands for the working directory. -/
def createDirectories (fs : Files) (path : String) : Files × Except FileError Unit :=
  if path.isEmpty then (fs, .ok ())
  else match parts path with
    | .error e => (fs, .error e)
    | .ok p =>
      let names := if path.toList.getLast? == some '/' then p.names.dropLast else p.names
      makeAll (names.length + 1) fs { p with names }

/-- The files with a directory and all directories above it. -/
def createDirectory (fs : Files) (path : String) : Except FileError Files :=
  match fs.createDirectories path with
  | (fs, .ok ()) => .ok fs
  | (_, .error e) => .error e

/-- The files below a directory, with their paths. -/
def below (fs : Files) (l : Location) : List (Location × ByteArray) :=
  fs.stored.filterMap fun (at_, s) =>
    match s with
    | .file number => if l.isPrefixOf at_ && at_ != l then some (at_, fs.bytes number) else none
    | _ => none

end Files

end FolGraph
