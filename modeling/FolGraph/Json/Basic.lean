/-!
JSON values and their texts. A text is written in one of two styles: compact, without any space,
and indented, with each item on a line of its own.
-/

namespace FolGraph

/-- The JSON values that are ever written. -/
inductive Json where
  | number (n : Nat)
  | string (s : String)
  | array (items : List Json)
  | object (members : List (String × Json))
  deriving Repr, Inhabited

namespace Json

/-- The characters that stand for a character within quotes: a quote, a backslash and the control
characters are escaped, and all others stand for themselves. -/
def escape (c : Char) : List Char :=
  if c = '"' then ['\\', '"']
  else if c = '\\' then ['\\', '\\']
  else if c.toNat = 8 then ['\\', 'b']
  else if c.toNat = 12 then ['\\', 'f']
  else if c = '\n' then ['\\', 'n']
  else if c = '\r' then ['\\', 'r']
  else if c = '\t' then ['\\', 't']
  else if c.toNat < 32 then
    ['\\', 'u', '0', '0', Nat.digitChar (c.toNat / 16), Nat.digitChar (c.toNat % 16)]
  else [c]

/-- A text in quotes. -/
def quote (cs : List Char) : List Char := '"' :: cs.flatMap escape ++ ['"']

/-- What is written between the parts of a value; all of it is blank but the colon. -/
structure Style where
  /-- Stands before each item and before the closing bracket, which belong to a depth. -/
  gap : Nat → List Char
  /-- Stands between a key and its value. -/
  colon : List Char

def Style.compact : Style := ⟨fun _ => [], [':']⟩

/-- Two spaces for each level of nesting. -/
def Style.indented : Style := ⟨fun depth => '\n' :: List.replicate (2 * depth) ' ', [':', ' ']⟩

/-- Puts items between brackets; without any item nothing stands between them. -/
def enclose (st : Style) (depth : Nat) (opening closing : Char) (items : List (List Char)) :
    List Char :=
  match items with
  | [] => [opening, closing]
  | _ =>
    opening :: st.gap (depth + 1) ++ List.intercalate (',' :: st.gap (depth + 1)) items ++
      st.gap depth ++ [closing]

mutual

/-- The text of a value that stands at a depth of nesting. -/
def render (st : Style) (depth : Nat) : Json → List Char
  | .number n => Nat.toDigits 10 n
  | .string s => quote s.toList
  | .array items => enclose st depth '[' ']' (renderItems st (depth + 1) items)
  | .object members => enclose st depth '\x7b' '\x7d' (renderMembers st (depth + 1) members)

def renderItems (st : Style) (depth : Nat) : List Json → List (List Char)
  | [] => []
  | v :: vs => v.render st depth :: renderItems st depth vs

def renderMembers (st : Style) (depth : Nat) : List (String × Json) → List (List Char)
  | [] => []
  | (key, v) :: rest =>
    (quote key.toList ++ st.colon ++ v.render st depth) :: renderMembers st depth rest

end

/-- The text without spaces. -/
def compact (v : Json) : String := String.ofList (v.render .compact 0)

/-- The text with one item on each line. -/
def pretty (v : Json) : String := String.ofList (v.render .indented 0)

end Json

end FolGraph
