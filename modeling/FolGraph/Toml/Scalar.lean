import FolGraph.Toml.Lexeme
import FolGraph.Toml.Table

/-!
The numbers, dates and times of TOML. Underscores stand between digits only, a decimal whole part
has no leading zero, and integers have 64 bits with a sign.
-/

namespace FolGraph.Toml

/-- Reads the digits that follow a digit, each of which may have an underscore before it. -/
def moreDigits (base : Nat) : List Char → List Nat × List Char
  | '_' :: c :: rest =>
    match digit? base c with
    | some d => let (ds, rest) := moreDigits base rest; (d :: ds, rest)
    | none => ([], '_' :: c :: rest)
  | c :: rest =>
    match digit? base c with
    | some d => let (ds, rest) := moreDigits base rest; (d :: ds, rest)
    | none => ([], c :: rest)
  | [] => ([], [])

/-- Reads one or more digits. -/
def digits? (base : Nat) : List Char → Option (List Nat × List Char)
  | c :: rest => do
    let d ← digit? base c
    let (ds, rest) := moreDigits base rest
    some (d :: ds, rest)
  | [] => none

def numberOf (base : Nat) (ds : List Nat) : Nat := ds.foldl (fun n d => n * base + d) 0

/-- Reads a sign, if there is one; true stands for minus. -/
def sign : List Char → Bool × List Char
  | '+' :: rest => (false, rest)
  | '-' :: rest => (true, rest)
  | cs => (false, cs)

/-- Reads a decimal whole number; a leading zero stands alone. -/
def whole? (cs : List Char) : Option (Bool × List Nat × List Char) := do
  let (negative, cs) := sign cs
  match cs with
  | '0' :: rest => some (negative, [0], rest)
  | cs => do
    let (ds, rest) ← digits? 10 cs
    some (negative, ds, rest)

/-- A number of 64 bits with a sign. -/
def inRange? (i : Int) : Option Value :=
  if -Int.pow 2 63 ≤ i && i < Int.pow 2 63 then some (.integer i) else none

def based? (base : Nat) (cs : List Char) : Option (Value × List Char) := do
  let (ds, rest) ← digits? base cs
  some (← inRange? (numberOf base ds), rest)

def integer? : List Char → Option (Value × List Char)
  | '0' :: 'x' :: rest => based? 16 rest
  | '0' :: 'o' :: rest => based? 8 rest
  | '0' :: 'b' :: rest => based? 2 rest
  | cs => do
    let (negative, ds, rest) ← whole? cs
    let n : Int := numberOf 10 ds
    some (← inRange? (if negative then -n else n), rest)

/-- The number nearest to `mantissa * 10 ^ exponent`; far outside the range the power is not
computed. -/
def nearest (mantissa : Nat) (exponent : Int) : Float :=
  let size : Int := (Nat.toDigits 10 mantissa).length + exponent
  if mantissa = 0 || size < -400 then 0
  else if 400 < size then 1 / 0
  else Float.ofScientific mantissa (exponent < 0) exponent.natAbs

/-- Reads an exponent from after its letter. -/
def exponent? (cs : List Char) : Option (Int × List Char) := do
  let (negative, cs) := sign cs
  let (ds, rest) ← digits? 10 cs
  let n : Int := numberOf 10 ds
  some (if negative then -n else n, rest)

/-- Reads the power of ten of a number, if it has one. -/
def power? : List Char → Option (Int × List Char)
  | 'e' :: rest => exponent? rest
  | 'E' :: rest => exponent? rest
  | rest => some (0, rest)

/-- Reads a number with a fraction or an exponent. One that is too great is refused, but one that
is too far below zero is not. -/
def decimal? (cs : List Char) : Option (Value × List Char) := do
  let (negative, whole, rest) ← whole? cs
  let (fraction, exponent, rest) ←
    match rest with
    | '.' :: rest => do
      let (fraction, rest) ← digits? 10 rest
      let (exponent, rest) ← power? rest
      some (fraction, exponent, rest)
    | 'e' :: _ => do
      let (exponent, rest) ← power? rest
      some ([], exponent, rest)
    | 'E' :: _ => do
      let (exponent, rest) ← power? rest
      some ([], exponent, rest)
    | _ => none
  let f := nearest (numberOf 10 (whole ++ fraction)) (exponent - fraction.length)
  if f.isInf && !negative then none
  else some (.float (if negative then -f else f).toBits, rest)

/-- Reads an infinity or what is not a number. -/
def special? (cs : List Char) : Option (Value × List Char) :=
  let (negative, cs) := sign cs
  match cs with
  | 'i' :: 'n' :: 'f' :: rest =>
    let f : Float := 1 / 0
    some (.float (if negative then -f else f).toBits, rest)
  | 'n' :: 'a' :: 'n' :: rest => some (.float ((0 / 0 : Float)).toBits, rest)
  | _ => none

/-- Reads a number of exactly `count` digits that lies between two bounds. -/
def field? (count low high : Nat) (cs : List Char) : Option (Nat × List Char) := do
  let ds ← (cs.take count).mapM (digit? 10)
  let n := numberOf 10 ds
  if ds.length = count && low ≤ n && n ≤ high then some (n, cs.drop count) else none

/-- Reads a character that has to stand at the front. -/
def mark? (c : Char) : List Char → Option (List Char)
  | d :: rest => if c = d then some rest else none
  | [] => none

def isLeapYear (y : Nat) : Bool := y % 4 == 0 && (y % 100 != 0 || y % 400 == 0)

def daysOfMonth (year month : Nat) : Nat :=
  if month = 2 then if isLeapYear year then 29 else 28
  else if month = 4 || month = 6 || month = 9 || month = 11 then 30
  else 31

def date? (cs : List Char) : Option (List Char) := do
  let (year, cs) ← field? 4 0 9999 cs
  let cs ← mark? '-' cs
  let (month, cs) ← field? 2 1 12 cs
  let cs ← mark? '-' cs
  let (_, cs) ← field? 2 1 (daysOfMonth year month) cs
  some cs

/-- Reads a time of day; a leap second has the number 60. -/
def time? (cs : List Char) : Option (List Char) := do
  let (_, cs) ← field? 2 0 23 cs
  let cs ← mark? ':' cs
  let (_, cs) ← field? 2 0 59 cs
  let cs ← mark? ':' cs
  let (_, cs) ← field? 2 0 60 cs
  match cs with
  | '.' :: rest =>
    let tail := rest.dropWhile Char.isDigit
    if tail.length < rest.length then some tail else none
  | cs => some cs

/-- Reads the distance from universal time, if it is given. -/
def offset? : List Char → Option (List Char)
  | 'Z' :: rest => some rest
  | 'z' :: rest => some rest
  | '+' :: rest => clock? rest
  | '-' :: rest => clock? rest
  | cs => some cs
where
  clock? (cs : List Char) : Option (List Char) := do
    let (_, cs) ← field? 2 0 23 cs
    let cs ← mark? ':' cs
    let (_, cs) ← field? 2 0 59 cs
    some cs

/-- Reads what may follow a date: a time and an offset. -/
def timeAfterDate? (cs : List Char) : Option (List Char) :=
  match cs with
  | c :: rest =>
    if c = 'T' || c = 't' || c = ' ' then
      match time? rest with
      | some rest => offset? rest
      | none => some cs
    else some cs
  | [] => some []

/-- Reads a date, a time or both. -/
def datetime? (cs : List Char) : Option (Value × List Char) := do
  let rest ← match date? cs with
    | some rest => timeAfterDate? rest
    | none => time? cs
  some (.datetime, rest)

/-- Reads a scalar that begins with a sign or a digit. -/
def number? (cs : List Char) : Option (Value × List Char) :=
  datetime? cs <|> decimal? cs <|> special? cs <|> integer? cs

/-- Reads a word that has to stand at the front. -/
def word? (word : List Char) (value : Value) (cs : List Char) : Option (Value × List Char) :=
  if word.isPrefixOf cs then some (value, cs.drop word.length) else none

end FolGraph.Toml
