/-!
The lexemes of TOML texts: space, comments, line ends, quoted texts and keys. Each function reads
at the front of a text and returns what follows.
-/

namespace FolGraph.Toml

def isSpace (c : Char) : Bool := c == ' ' || c == '\t'

def skipSpace (cs : List Char) : List Char := cs.dropWhile isSpace

/-- The characters that stand for themselves: all but the controls other than the tab. -/
def isText (c : Char) : Bool := c == '\t' || (32 ≤ c.toNat && c.toNat != 127)

def newline? : List Char → Option (List Char)
  | '\n' :: rest => some rest
  | '\r' :: '\n' :: rest => some rest
  | _ => none

def skipComment : List Char → List Char
  | '#' :: rest => rest.dropWhile isText
  | cs => cs

/-- Ends a line, which may hold a comment; the last line may end with the text. -/
def endOfLine? (cs : List Char) : Option (List Char) :=
  match skipComment (skipSpace cs) with
  | [] => some []
  | cs => newline? cs

/-- Skips space, line ends and comments, as between the items of an array. -/
def skipLines (inComment : Bool) : List Char → List Char
  | [] => []
  | '\n' :: rest => skipLines false rest
  | '\r' :: '\n' :: rest => skipLines false rest
  | c :: rest =>
    if inComment then if isText c then skipLines true rest else c :: rest
    else if c = '#' then skipLines true rest
    else if isSpace c then skipLines false rest
    else c :: rest

/-- Skips space and line ends, as after a backslash at the end of a line. -/
def skipBlank : List Char → List Char
  | '\n' :: rest => skipBlank rest
  | '\r' :: '\n' :: rest => skipBlank rest
  | c :: rest => if isSpace c then skipBlank rest else c :: rest
  | [] => []

def digit? (base : Nat) (c : Char) : Option Nat :=
  let d :=
    if '0' ≤ c && c ≤ '9' then c.toNat - 48
    else if 'a' ≤ c && c ≤ 'z' then c.toNat - 87
    else if 'A' ≤ c && c ≤ 'Z' then c.toNat - 55
    else 99
  if d < base then some d else none

/-- Reads a given count of hexadecimal digits as the number of a character. -/
def codePoint? : Nat → Nat → List Char → Option (Char × List Char)
  | 0, n, rest => if n.isValidChar then some (Char.ofNat n, rest) else none
  | count + 1, n, c :: rest => do codePoint? count (n * 16 + (← digit? 16 c)) rest
  | _ + 1, _, [] => none

/-- Reads an escape from after its backslash. -/
def escape? : List Char → Option (Char × List Char)
  | 'b' :: rest => some (Char.ofNat 8, rest)
  | 't' :: rest => some ('\t', rest)
  | 'n' :: rest => some ('\n', rest)
  | 'f' :: rest => some (Char.ofNat 12, rest)
  | 'r' :: rest => some ('\r', rest)
  | '"' :: rest => some ('"', rest)
  | '\\' :: rest => some ('\\', rest)
  | 'u' :: rest => codePoint? 4 0 rest
  | 'U' :: rest => codePoint? 8 0 rest
  | _ => none

/-- Reads a quoted text of one line from after its opening quote. Escapes stand only between
double quotes. The fuel bounds the number of characters. -/
def line? (quote : Char) : Nat → List Char → Option (List Char × List Char)
  | 0, _ => none
  | _ + 1, [] => none
  | fuel + 1, c :: rest =>
    if c = quote then some ([], rest)
    else do
      let (c, rest) ←
        if c = '\\' && quote = '"' then escape? rest
        else if isText c then some (c, rest) else none
      let (cs, rest) ← line? quote fuel rest
      some (c :: cs, rest)

/-- Ends a quoted text of many lines from after its three quotes; up to two quotes that follow
belong to the text. -/
def closingQuotes (quote : Char) : List Char → List Char × List Char
  | a :: b :: rest =>
    if a = quote && b = quote then ([quote, quote], rest)
    else if a = quote then ([quote], b :: rest)
    else ([], a :: b :: rest)
  | [a] => if a = quote then ([quote], []) else ([], [a])
  | [] => ([], [])

/-- Reads a quoted text of many lines from after its opening quotes. -/
def block? (quote : Char) : Nat → List Char → Option (List Char × List Char)
  | 0, _ => none
  | _ + 1, [] => none
  | fuel + 1, c :: rest =>
    if [quote, quote, quote].isPrefixOf (c :: rest) then
      some (closingQuotes quote (rest.drop 2))
    else if c = '\\' && quote = '"' then
      match newline? (skipSpace rest) with
      | some rest => block? quote fuel (skipBlank rest)
      | none => do
        let (c, rest) ← escape? rest
        let (cs, rest) ← block? quote fuel rest
        some (c :: cs, rest)
    else
      match newline? (c :: rest) with
      | some rest => do
        let (cs, rest) ← block? quote fuel rest
        some ('\n' :: cs, rest)
      | none =>
        if isText c then do
          let (cs, rest) ← block? quote fuel rest
          some (c :: cs, rest)
        else none

/-- Reads a quoted text of any form from after its first quote. -/
def string? (quote : Char) (cs : List Char) : Option (String × List Char) := do
  let (text, rest) ←
    if [quote, quote].isPrefixOf cs then
      let body := cs.drop 2
      block? quote (body.length + 1) ((newline? body).getD body)
    else line? quote (cs.length + 1) cs
  some (String.ofList text, rest)

def isBareKey (c : Char) : Bool := c.isAlphanum || c == '-' || c == '_'

/-- Reads one part of a key. -/
def keyPart? : List Char → Option (String × List Char)
  | '"' :: rest => (line? '"' (rest.length + 1) rest).map fun (k, rest) => (String.ofList k, rest)
  | '\'' :: rest => (line? '\'' (rest.length + 1) rest).map fun (k, rest) => (String.ofList k, rest)
  | cs =>
    match cs.takeWhile isBareKey with
    | [] => none
    | k => some (String.ofList k, cs.dropWhile isBareKey)

/-- A key has fewer parts than this. -/
def keyLimit : Nat := 80

/-- Reads the parts of a key, with points between them and space around them. -/
def keyParts? : Nat → List Char → Option (List String × List Char)
  | 0, _ => none
  | fuel + 1, cs => do
    let (k, rest) ← keyPart? (skipSpace cs)
    match skipSpace rest with
    | '.' :: rest =>
      let (ks, rest) ← keyParts? fuel rest
      some (k :: ks, rest)
    | rest => some ([k], rest)

def key? (cs : List Char) : Option (List String × List Char) := keyParts? (keyLimit - 1) cs

end FolGraph.Toml
