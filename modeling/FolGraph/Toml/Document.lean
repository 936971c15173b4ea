import FolGraph.Toml.Scalar
import FolGraph.Toml.Table

/-!
TOML documents: lines that hold a key with its value, the header of a table, or nothing. The value
of a document is a table.
-/

namespace FolGraph.Toml

/-- How deep arrays and inline tables may nest. -/
def maxNesting : Nat := 79

mutual

/-- Reads a value; `depth` is how many brackets may still be opened. The fuel bounds the number of
values and lists still to be opened. -/
def value? : Nat → Nat → List Char → Option (Value × List Char)
  | 0, _, _ => none
  | _ + 1, _, [] => none
  | fuel + 1, depth, c :: rest =>
    if c = '"' || c = '\'' then do
      let (s, rest) ← string? c rest
      some (.string s, rest)
    else if c = '[' then
      match depth with
      | 0 => none
      | depth + 1 => do
        let (vs, rest) ← items? fuel depth rest
        some (.array vs, rest)
    else if c = '\x7b' then
      match depth with
      | 0 => none
      | depth + 1 =>
        match skipSpace rest with
        | '\x7d' :: rest => some (.table [], rest)
        | _ => do
          let (es, rest) ← members? fuel depth [] rest
          some (.table (Item.toEntries es), rest)
    else if c = 't' then word? "rue".toList (.boolean true) rest
    else if c = 'f' then word? "alse".toList (.boolean false) rest
    else if c = 'i' || c = 'n' then special? (c :: rest)
    else number? (c :: rest)

/-- Reads the items of an array up to its closing bracket; the last may have a comma behind it. -/
def items? : Nat → Nat → List Char → Option (List Value × List Char)
  | 0, _, _ => none
  | fuel + 1, depth, cs =>
    match skipLines false cs with
    | ']' :: rest => some ([], rest)
    | cs => do
      let (v, rest) ← value? fuel depth cs
      match skipLines false rest with
      | ']' :: rest => some ([v], rest)
      | ',' :: rest =>
        let (vs, rest) ← items? fuel depth rest
        some (v :: vs, rest)
      | _ => none

/-- Reads the members of an inline table up to its closing bracket. -/
def members? : Nat → Nat → Entries → List Char → Option (Entries × List Char)
  | 0, _, _, _ => none
  | fuel + 1, depth, es, cs => do
    let (key, rest) ← key? cs
    let rest ← mark? '=' rest
    let (v, rest) ← value? fuel depth (skipSpace rest)
    let es ← es.insert key v
    match skipSpace rest with
    | '\x7d' :: rest => some (es, rest)
    | ',' :: rest => members? fuel depth es rest
    | _ => none

end

/-- A document read so far: its table and the header in force. -/
structure State where
  entries : Entries
  header : List String

/-- Reads a key with its value, up to the end of the line. -/
def keyLine? (st : State) (cs : List Char) : Option (State × List Char) := do
  let (key, rest) ← key? cs
  let rest ← mark? '=' rest
  let (v, rest) ← value? (2 * rest.length + 2) maxNesting (skipSpace rest)
  let rest ← endOfLine? rest
  some ({ st with entries := ← st.entries.insertBelow st.header key v }, rest)

/-- Reads a header from after its first bracket, up to the end of the line. -/
def headerLine? (st : State) : List Char → Option (State × List Char)
  | '[' :: rest => do
    let (key, rest) ← key? rest
    let rest ← endOfLine? (← mark? ']' (← mark? ']' rest))
    some (⟨← st.entries.beginElement key, key⟩, rest)
  | rest => do
    let (key, rest) ← key? rest
    let rest ← endOfLine? (← mark? ']' rest)
    some (⟨← st.entries.beginTable key, key⟩, rest)

/-- Reads the lines of a document. The fuel bounds their number. -/
def lines? : Nat → State → List Char → Option Entries
  | 0, _, _ => none
  | fuel + 1, st, cs =>
    match skipSpace cs with
    | [] => some st.entries
    | '[' :: rest => do
      let (st, rest) ← headerLine? st rest
      lines? fuel st rest
    | c :: rest =>
      if c = '#' || c = '\n' || c = '\r' then do
        lines? fuel st (← endOfLine? (c :: rest))
      else do
        let (st, rest) ← keyLine? st (c :: rest)
        lines? fuel st rest

/-- Drops the mark of the byte order at the front of a text. -/
def dropMark : List Char → List Char
  | c :: rest => if c.toNat = 0xFEFF then rest else c :: rest
  | [] => []

/-- The table that a text stands for, if it is a document. -/
def document? (text : String) : Option (List (String × Value)) :=
  let cs := dropMark text.toList
  (lines? (cs.length + 1) ⟨[], []⟩ cs).map Item.toEntries

end FolGraph.Toml
