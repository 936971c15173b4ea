import FolGraph.Settings.Basic

/-!
The arguments of the command line. There are three commands, each with options of its own; the
verbosity and the settings file may be given before or after the name of the command. An option
takes its value from the rest of the argument or from the next one, and is given at most once.
-/

namespace FolGraph.CommandLine

/-- What is to be done. -/
inductive Command where
  /-- Convert every formula of a problem list; settings that are given prevail over the file. -/
  | convert (list directory : String) (format : Option Export.Format)
      (encoding : Option Export.Encoding) (workers : Option Nat) (failFast verify strict : Bool)
  /-- Decode a stored graph. -/
  | decode (graph : String) (strict : Bool)
  /-- Export one formula. -/
  | inspect (formula : String) (format : Export.Format)
  deriving DecidableEq, Repr

/-- What the arguments ask for. -/
inductive Request where
  | run (settings : Option String) (command : Command)
  | version
  | help
  deriving DecidableEq, Repr

/-- What the value of an option has to be. -/
inductive ValueForm where
  | path
  | format
  | encoding
  | count
  deriving DecidableEq, Repr

/-- An option: its long name, its letter if it has one, and its value if it takes one. -/
structure OptionSpec where
  long : String
  short : Option Char
  value : Option ValueForm
  deriving DecidableEq, Repr

/-- The options that may be given before and after the name of the command. -/
def globalOptions : List OptionSpec :=
  [⟨"verbose", some 'v', none⟩, ⟨"config", some 'c', some .path⟩]

def helpOption : OptionSpec := ⟨"help", some 'h', none⟩

def versionOption : OptionSpec := ⟨"version", some 'V', none⟩

/-- The commands by name, with their options. -/
def commandOptions : List (String × List OptionSpec) :=
  [("convert",
    [⟨"list", some 'l', some .path⟩, ⟨"output-dir", some 'o', some .path⟩,
      ⟨"format", some 'f', some .format⟩, ⟨"encoding", some 'e', some .encoding⟩,
      ⟨"workers", some 'w', some .count⟩, ⟨"fail-fast", none, none⟩, ⟨"verify", none, none⟩,
      ⟨"strict-arity", none, none⟩]),
   ("decode", [⟨"graph", some 'g', some .path⟩, ⟨"strict-arity", none, none⟩]),
   ("inspect", [⟨"ast", some 'a', some .path⟩, ⟨"format", some 'f', some .format⟩])]

def findLong? (specs : List OptionSpec) (name : String) : Option OptionSpec :=
  specs.find? (·.long == name)

def findShort? (specs : List OptionSpec) (letter : Char) : Option OptionSpec :=
  specs.find? (·.short == some letter)

/-- A natural number of 64 bits, which may have a plus sign. -/
def count? (s : String) : Option Nat :=
  let digits := match s.toList with
    | '+' :: rest => rest
    | cs => cs
  if digits.isEmpty || !digits.all Char.isDigit then none
  else
    let n := digits.foldl (fun n c => n * 10 + (c.toNat - 48)) 0
    if n < Nat.pow 2 64 then some n else none

/-- Whether a text is a value of the form; a path is not empty. -/
def ValueForm.accepts (value : String) : ValueForm → Bool
  | .path => !value.isEmpty
  | .format => (Export.Format.ofName? value).isSome
  | .encoding => (Export.Encoding.ofName? value).isSome
  | .count => (count? value).isSome

/-- The options given so far: their long names, with a value if they take one. -/
abbrev Given := List (String × String)

def isGiven (given : Given) (name : String) : Bool := given.any (·.1 == name)

/-- Records an option, which must not have been given before and whose value must have its form. -/
def record? (given : Given) (spec : OptionSpec) (value : String) : Option Given :=
  if isGiven given spec.long || !spec.value.all (·.accepts value) then none
  else some (given ++ [(spec.long, value)])

/-- What one argument comes to. -/
inductive Reading where
  | given (given : Given)
  /-- The option takes its value from the next argument. -/
  | wantsValue (given : Given) (spec : OptionSpec)
  /-- Two dashes: no option follows. -/
  | endOfOptions
  /-- The argument is no option. -/
  | operand
  | version
  | help
  deriving DecidableEq, Repr

/-- A switch; those for help and version end the reading of arguments. -/
def switch? (given : Given) (spec : OptionSpec) : Option Reading :=
  if spec = helpOption then some .help
  else if spec = versionOption then some .version
  else (record? given spec "").map .given

/-- Reads the letters of an argument from after its dash. A letter that takes a value takes all
that follows it, less an equals sign. -/
def letters? (specs : List OptionSpec) (given : Given) : List Char → Option Reading
  | [] => some (.given given)
  | letter :: rest => do
    let spec ← findShort? specs letter
    match spec.value, rest with
    | some _, [] => some (.wantsValue given spec)
    | some _, '=' :: value => (record? given spec (String.ofList value)).map .given
    | some _, value => (record? given spec (String.ofList value)).map .given
    | none, rest =>
      match ← switch? given spec with
      | .given given => letters? specs given rest
      | outcome => some outcome

/-- Splits at the first equals sign. -/
def splitEquals (cs : List Char) : List Char × Option (List Char) :=
  match cs.dropWhile (· != '=') with
  | [] => (cs, none)
  | _ :: value => (cs.takeWhile (· != '='), some value)

/-- Reads a named option from after its two dashes; a switch has no value. -/
def named? (specs : List OptionSpec) (given : Given) (body : List Char) : Option Reading := do
  let (name, value) := splitEquals body
  let spec ← findLong? specs (String.ofList name)
  match spec.value, value with
  | some _, some value => (record? given spec (String.ofList value)).map .given
  | some _, none => some (.wantsValue given spec)
  | none, some _ => none
  | none, none => switch? given spec

/-- Reads an argument where an option may stand. -/
def reading? (specs : List OptionSpec) (given : Given) (arg : String) : Option Reading :=
  match arg.toList with
  | ['-', '-'] => some .endOfOptions
  | '-' :: '-' :: body => named? specs given body
  | '-' :: letter :: body => letters? specs given (letter :: body)
  | _ => some .operand

/-- Whether an argument can be the value of the option before it. -/
def isValue (arg : String) : Bool := arg = "-" || arg.toList.head? != some '-'

/-- What the reading of options comes to. -/
inductive Outcome where
  /-- The options, and the arguments from the first one on that is no option. -/
  | done (given : Given) (rest : List String)
  | version
  | help
  deriving DecidableEq, Repr

/-- Reads options up to the first argument that is none; a first option may still want its value.
Nothing may follow the end of options, as there are no operands. -/
def options? (specs : List OptionSpec) (given : Given) :
    Option OptionSpec → List String → Option Outcome
  | none, [] => some (.done given [])
  | some _, [] => none
  | some spec, value :: args =>
    if isValue value then
      match record? given spec value with
      | some given => options? specs given none args
      | none => none
    else none
  | none, arg :: args =>
    match reading? specs given arg with
    | some (.given given) => options? specs given none args
    | some (.wantsValue given spec) => options? specs given (some spec) args
    | some .endOfOptions => if args.isEmpty then some (.done given []) else none
    | some .operand => some (.done given (arg :: args))
    | some .version => some .version
    | some .help => some .help
    | none => none

/-- The command with a given name and options; options without which it means nothing have to be
given. -/
def command? (name : String) (given : Given) : Option Command := do
  let format := given.lookup "format" >>= Export.Format.ofName?
  match name with
  | "convert" =>
    some (.convert (← given.lookup "list") (← given.lookup "output-dir") format
      (given.lookup "encoding" >>= Export.Encoding.ofName?) (given.lookup "workers" >>= count?)
      (isGiven given "fail-fast") (isGiven given "verify") (isGiven given "strict-arity"))
  | "decode" => some (.decode (← given.lookup "graph") (isGiven given "strict-arity"))
  | "inspect" => some (.inspect (← given.lookup "ast") (format.getD .dot))
  | _ => none

/-- The command for help takes at most the name of a command, its own included; whatever follows
its name is read as such a name. -/
def help? : List String → Option Request
  | [] => some .help
  | [name] => if name = "help" || (commandOptions.lookup name).isSome then some .help else none
  | _ => none

/-- What the arguments ask for, if they are valid. Of two settings files, the one that is given
after the name of the command prevails. -/
def request? (args : List String) : Option Request := do
  match ← options? (globalOptions ++ [helpOption, versionOption]) [] none args with
  | .version => some .version
  | .help => some .help
  | .done _ [] => none
  | .done before (name :: args) =>
    if name = "help" then help? args
    else
      let specs ← commandOptions.lookup name
      match ← options? (specs ++ globalOptions ++ [helpOption]) [] none args with
      | .help => some .help
      | .version => some .version
      | .done after [] =>
        let settings := (after.lookup "config").or (before.lookup "config")
        some (.run settings (← command? name after))
      | .done _ (_ :: _) => none

end FolGraph.CommandLine
