/-!
What a JSON text says, read as far as the text is well formed. Where the text breaks off or
breaks the grammar, the draft of its value is `broken` or a bracket in it stays open, so that a
reader who walks through the draft meets a fault exactly where it meets it in the text.
-/

namespace FolGraph.Json

/-- A character of a quoted text, as it stands there. -/
inductive Glyph where
  | plain (c : Char)
  /-- Four hexadecimal digits; they may be one half of a surrogate pair. -/
  | unit (code : Nat)
  deriving DecidableEq, Repr

/-- The characters that glyphs stand for, unless a half of a surrogate pair stands alone. -/
def Glyph.join : List Glyph → Option (List Char)
  | [] => some []
  | .plain c :: rest => (join rest).map (c :: ·)
  | .unit hi :: .unit lo :: rest =>
    if 0xD800 ≤ hi && hi < 0xDC00 && 0xDC00 ≤ lo && lo < 0xE000 then
      (join rest).map (Char.ofNat (0x10000 + (hi - 0xD800) * 0x400 + (lo - 0xDC00)) :: ·)
    else if 0xD800 ≤ hi && hi < 0xE000 then none
    else (join (.unit lo :: rest)).map (Char.ofNat hi :: ·)
  | .unit code :: rest =>
    if 0xD800 ≤ code && code < 0xE000 then none
    else (join rest).map (Char.ofNat code :: ·)

/-- A number as written; digits are kept as values below ten. -/
structure Numeral where
  negative : Bool
  whole : List Nat
  /-- The digits after the point, none if there is no point. -/
  fraction : List Nat
  /-- The sign and the digits of the exponent. -/
  exponent : Option (Bool × List Nat)
  deriving DecidableEq, Repr

inductive Draft where
  | broken
  | null
  | bool (b : Bool)
  | number (n : Numeral)
  | string (glyphs : List Glyph)
  | array (items : List Draft) (closed : Bool)
  /-- A key is a `string`, unless the object breaks off at it. -/
  | object (members : List (Draft × Draft)) (closed : Bool)
  deriving Repr

namespace Draft

mutual

/-- Whether nothing in a draft is broken. -/
def isComplete : Draft → Bool
  | .broken => false
  | .null | .bool _ | .number _ | .string _ => true
  | .array items closed => itemsComplete items && closed
  | .object members closed => membersComplete members && closed

def itemsComplete : List Draft → Bool
  | [] => true
  | d :: ds => d.isComplete && itemsComplete ds

def membersComplete : List (Draft × Draft) → Bool
  | [] => true
  | (key, value) :: rest => key.isComplete && value.isComplete && membersComplete rest

end

/-- The blank characters of JSON. -/
def isBlank (c : Char) : Bool := c == ' ' || c == '\n' || c == '\t' || c == '\r'

def skipBlank (cs : List Char) : List Char := cs.dropWhile isBlank

def digit? (c : Char) : Option Nat :=
  if '0' ≤ c && c ≤ '9' then some (c.toNat - 48) else none

def hexDigit? (c : Char) : Option Nat :=
  if '0' ≤ c && c ≤ '9' then some (c.toNat - 48)
  else if 'a' ≤ c && c ≤ 'f' then some (c.toNat - 87)
  else if 'A' ≤ c && c ≤ 'F' then some (c.toNat - 55)
  else none

/-- The value of four hexadecimal digits. -/
def hexUnit? (a b c d : Char) : Option Nat := do
  let a ← hexDigit? a
  let b ← hexDigit? b
  let c ← hexDigit? c
  let d ← hexDigit? d
  some (a * 0x1000 + b * 0x100 + c * 0x10 + d)

/-- The character that a letter after a backslash stands for. -/
def unescape? (c : Char) : Option Char :=
  if c = '"' || c = '\\' || c = '/' then some c
  else if c = 'b' then some (Char.ofNat 8)
  else if c = 'f' then some (Char.ofNat 12)
  else if c = 'n' then some '\n'
  else if c = 'r' then some '\r'
  else if c = 't' then some '\t'
  else none

/-- Reads a quoted text from after its opening quote. -/
def quoted? : List Char → Option (List Glyph × List Char)
  | [] => none
  | '"' :: rest => some ([], rest)
  | '\\' :: 'u' :: a :: b :: c :: d :: rest =>
    match hexUnit? a b c d, quoted? rest with
    | some code, some (glyphs, rest) => some (.unit code :: glyphs, rest)
    | _, _ => none
  | '\\' :: c :: rest =>
    match unescape? c, quoted? rest with
    | some c, some (glyphs, rest) => some (.plain c :: glyphs, rest)
    | _, _ => none
  | c :: rest =>
    if c.toNat < 32 then none
    else match quoted? rest with
      | some (glyphs, rest) => some (.plain c :: glyphs, rest)
      | none => none

/-- Reads all digits at the front. -/
def digits : List Char → List Nat × List Char
  | [] => ([], [])
  | c :: rest =>
    match digit? c with
    | some d => let (ds, rest) := digits rest; (d :: ds, rest)
    | none => ([], c :: rest)

/-- Reads the digits before the point: a leading zero stands alone. -/
def wholePart? (cs : List Char) : Option (List Nat × List Char) :=
  match digits cs with
  | ([], _) => none
  | (0 :: _ :: _, _) => none
  | found => some found

/-- Reads a point and the digits after it, if there is a point. -/
def fractionPart? : List Char → Option (List Nat × List Char)
  | '.' :: rest =>
    match digits rest with
    | ([], _) => none
    | found => some found
  | cs => some ([], cs)

/-- Reads an exponent, if there is one. -/
def exponentPart? : List Char → Option (Option (Bool × List Nat) × List Char)
  | c :: rest =>
    if c = 'e' || c = 'E' then
      let (negative, rest) := match rest with
        | '+' :: rest => (false, rest)
        | '-' :: rest => (true, rest)
        | rest => (false, rest)
      match digits rest with
      | ([], _) => none
      | (ds, rest) => some (some (negative, ds), rest)
    else some (none, c :: rest)
  | [] => some (none, [])

/-- Reads a number. -/
def numeral? (cs : List Char) : Option (Numeral × List Char) := do
  let (negative, cs) := match cs with
    | '-' :: rest => (true, rest)
    | cs => (false, cs)
  let (whole, cs) ← wholePart? cs
  let (fraction, cs) ← fractionPart? cs
  let (exponent, cs) ← exponentPart? cs
  some (⟨negative, whole, fraction, exponent⟩, cs)

/-- Reads a word that has to stand at the front. -/
def word? (word : List Char) (value : Draft) (cs : List Char) : Draft × Option (List Char) :=
  if word.isPrefixOf cs then (value, some (cs.drop word.length)) else (.broken, none)

mutual

/-- Reads a value. The second part is what follows it, none if the value is not complete. The fuel
bounds the number of values and lists still to be opened. -/
def value : Nat → List Char → Draft × Option (List Char)
  | 0, _ => (.broken, none)
  | fuel + 1, cs =>
    match skipBlank cs with
    | '"' :: rest =>
      match quoted? rest with
      | some (glyphs, rest) => (.string glyphs, some rest)
      | none => (.broken, none)
    | '[' :: rest =>
      match skipBlank rest with
      | ']' :: rest => (.array [] true, some rest)
      | rest =>
        let (items, after) := items fuel rest
        (.array items after.isSome, after)
    | '\x7b' :: rest =>
      match skipBlank rest with
      | '\x7d' :: rest => (.object [] true, some rest)
      | rest =>
        let (members, after) := members fuel rest
        (.object members after.isSome, after)
    | 'n' :: rest => word? "ull".toList .null rest
    | 't' :: rest => word? "rue".toList (.bool true) rest
    | 'f' :: rest => word? "alse".toList (.bool false) rest
    | cs =>
      match numeral? cs with
      | some (n, rest) => (.number n, some rest)
      | none => (.broken, none)

/-- Reads the items of an array up to its closing bracket. -/
def items : Nat → List Char → List Draft × Option (List Char)
  | 0, _ => ([], none)
  | fuel + 1, cs =>
    match value fuel cs with
    | (v, none) => ([v], none)
    | (v, some rest) =>
      match skipBlank rest with
      | ']' :: rest => ([v], some rest)
      | ',' :: rest =>
        let (vs, after) := items fuel rest
        (v :: vs, after)
      | _ => ([v], none)

/-- Reads the members of an object up to its closing bracket. -/
def members : Nat → List Char → List (Draft × Draft) × Option (List Char)
  | 0, _ => ([], none)
  | fuel + 1, cs =>
    match value fuel cs with
    | (.string key, some rest) =>
      match skipBlank rest with
      | ':' :: rest =>
        match value fuel rest with
        | (v, none) => ([(.string key, v)], none)
        | (v, some rest) =>
          match skipBlank rest with
          | '\x7d' :: rest => ([(.string key, v)], some rest)
          | ',' :: rest =>
            let (ms, after) := members fuel rest
            ((.string key, v) :: ms, after)
          | _ => ([(.string key, v)], none)
      | _ => ([(.string key, .broken)], none)
    | (key, _) => ([(key, .broken)], none)

end

/-- The draft of a text, and what follows its value. Each character opens at most one value and
one list, so the fuel suffices. -/
def ofText (cs : List Char) : Draft × Option (List Char) := value (2 * cs.length + 2) cs

end Draft

end FolGraph.Json
