import FolGraph.Decimal.Convention
import FolGraph.Text.Escaped

/-!
How a stored value can differ from what a reader wants of it: it is of another type, out of range,
an unknown name, or a record with a field too many or too few.
-/

namespace FolGraph

/-- A value as messages describe it. -/
inductive Found where
  | integer (i : Int)
  | float (bits : UInt64)
  | boolean (b : Bool)
  | string (s : String)
  | null
  | sequence
  | map
  deriving DecidableEq, Repr

/-- A name as messages quote it. -/
def quoteName (name : String) : String := "\x60" ++ name ++ "\x60"

/-- The description; numbers with a fraction follow the convention of the format they stand in. -/
def Found.text (numbers : Decimal.Convention) : Found → String
  | .integer i => "integer " ++ quoteName (toString i)
  | .float bits => "floating point " ++ quoteName (numbers.text bits)
  | .boolean b => "boolean " ++ quoteName (if b then "true" else "false")
  | .string s => "string " ++ Text.shown s
  | .null => "null"
  | .sequence => "sequence"
  | .map => "map"

inductive Mismatch where
  | invalidType (found : Found) (wanted : String)
  | invalidValue (found : Int) (wanted : String)
  | invalidLength (length : Nat) (wanted : String)
  | unknownVariant (name : String) (known : List String)
  | unknownField (name : String) (known : List String)
  | missingField (name : String)
  | duplicateField (name : String)
  deriving DecidableEq, Repr

/-- The names that would have been known. -/
def choice : List String → String
  | [a] => quoteName a
  | [a, b] => quoteName a ++ " or " ++ quoteName b
  | names => "one of " ++ String.intercalate ", " (names.map quoteName)

def Mismatch.message (numbers : Decimal.Convention) : Mismatch → String
  | .invalidType found wanted =>
    "invalid type: " ++ found.text numbers ++ ", expected " ++ wanted
  | .invalidValue found wanted =>
    "invalid value: " ++ (Found.integer found).text numbers ++ ", expected " ++ wanted
  | .invalidLength n wanted => "invalid length " ++ toString n ++ ", expected " ++ wanted
  | .unknownVariant name known =>
    "unknown variant " ++ quoteName name ++ ", expected " ++ choice known
  | .unknownField name known =>
    "unknown field " ++ quoteName name ++ ", expected " ++ choice known
  | .missingField name => "missing field " ++ quoteName name
  | .duplicateField name => "duplicate field " ++ quoteName name

end FolGraph
