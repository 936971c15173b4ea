import FolGraph.Json.Number
import FolGraph.Mismatch

/-!
Reading values off drafts. A reader walks through a draft in the order of the text, and the first
problem that it meets is the outcome: either the text is malformed there, or it says something
else than what is wanted.
-/

namespace FolGraph.Json

/-- Why a text does not hold a wanted value. -/
inductive ReadError where
  | malformed
  | mismatch (m : Mismatch)
  deriving DecidableEq, Repr

/-- Numbers from `10 ^ (-5)` to below `10 ^ 16` are shown positionally. -/
def shownNumbers : Decimal.Convention := ⟨.even, some (-5, 15)⟩

def ReadError.message : ReadError → String
  | .malformed => "malformed JSON"
  | .mismatch m => m.message shownNumbers

/-- The result of reading. -/
abbrev Read (α : Type) := Except ReadError α

/-- How many brackets may be open at once. -/
def maxDepth : Nat := 127

/-- The characters of a quoted text. -/
def textOf (glyphs : List Glyph) : Read String :=
  match Glyph.join glyphs with
  | some cs => .ok (String.ofList cs)
  | none => .error .malformed

namespace Draft

/-- Reports a value that is not of the wanted type. -/
def unexpected (d : Draft) (wanted : String) : ReadError :=
  match d with
  | .broken => .malformed
  | .null => .mismatch (.invalidType .null wanted)
  | .bool b => .mismatch (.invalidType (.boolean b) wanted)
  | .number n =>
    match n.reading with
    | .integer i => .mismatch (.invalidType (.integer i) wanted)
    | .float bits => .mismatch (.invalidType (.float bits) wanted)
    | .outOfRange => .malformed
  | .string glyphs =>
    match textOf glyphs with
    | .ok s => .mismatch (.invalidType (.string s) wanted)
    | .error e => e
  | .array _ _ => .mismatch (.invalidType .sequence wanted)
  | .object _ _ => .mismatch (.invalidType .map wanted)

def text : Draft → Read String
  | .string glyphs => textOf glyphs
  | d => .error (d.unexpected "a string")

/-- A natural number below `2 ^ 32`. -/
def word32 : Draft → Read Nat
  | .number n =>
    match n.reading with
    | .integer i =>
      if 0 ≤ i && i < Int.pow 2 32 then .ok i.toNat else .error (.mismatch (.invalidValue i "u32"))
    | _ => .error ((Draft.number n).unexpected "u32")
  | d => .error (d.unexpected "u32")

/-- One of a list of names. -/
def nameIn {α : Type} (find : String → Option α) (known : List String) (name : String) : Read α :=
  match find name with
  | some a => .ok a
  | none => .error (.mismatch (.unknownVariant name known))

/-- A named constant, written as its name or as an object whose only key is the name and whose
value is null. -/
def constant {α : Type} (find : String → Option α) (known : List String) (depth : Nat) :
    Draft → Read α
  | .string glyphs => do nameIn find known (← textOf glyphs)
  | .object members closed =>
    match depth, members with
    | 0, _ => .error .malformed
    | _, [] => .error .malformed
    | _, (.string glyphs, value) :: rest => do
      let a ← nameIn find known (← textOf glyphs)
      match value with
      | .null => if rest.isEmpty && closed then .ok a else .error .malformed
      | value => .error (value.unexpected "unit")
    | _, _ :: _ => .error .malformed
  | _ => .error .malformed

/-- Passes over a value that is not wanted; it only has to be well formed. -/
def skip (d : Draft) : Read Unit := if d.isComplete then .ok () else .error .malformed

/-- Ends a list of items or members: its bracket has to be closed. -/
def close {α : Type} (closed : Bool) (a : Read α) : Read α :=
  if closed then a else .error .malformed

/-- The items of an array, each read at the depth inside it. -/
def list {α : Type} (item : Draft → Read α) (closed : Bool) : List Draft → Read (List α)
  | [] => close closed (.ok [])
  | d :: ds => do
    let a ← item d
    let as ← list item closed ds
    .ok (a :: as)

end Draft

/-- The key of a member of a record. -/
def keyOf : Draft → Read String
  | .string glyphs => textOf glyphs
  | _ => .error .malformed

/-- Stores the value of a field, which must not have been stored before. -/
def once {α : Type} (name : String) (slot : Option α) (value : Read α) : Read (Option α) :=
  match slot with
  | some _ => .error (.mismatch (.duplicateField name))
  | none => do .ok (some (← value))

/-- The value of a field that must have been stored. -/
def required {α : Type} (name : String) : Option α → Read α
  | some a => .ok a
  | none => .error (.mismatch (.missingField name))

/-- Checks that nothing but blank follows a value that has been read. -/
def finish : Option (List Char) → Read Unit
  | some rest => if (Draft.skipBlank rest).isEmpty then .ok () else .error .malformed
  | none => .error .malformed

end FolGraph.Json
