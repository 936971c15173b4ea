import FolGraph.Decimal.Shortest

/-!
The texts of floating-point numbers. The digits are the shortest ones; a convention says which of
two candidates is chosen and where positional notation gives way to an exponent.
-/

namespace FolGraph.Decimal

/-- How numbers are written. -/
structure Convention where
  tie : Tie
  /-- The least and the greatest place of a first digit that is still written positionally, as
  powers of ten; every number is written positionally if there are none. -/
  places : Option (Int × Int)
  deriving DecidableEq, Repr

namespace Digits

/-- The place of the first digit, as a power of ten. -/
def leadingPlace (d : Digits) : Int := d.exponent + (Nat.toDigits 10 d.digits).length - 1

/-- Positional notation; a whole number keeps the point and a zero. -/
def positional (d : Digits) : List Char :=
  let text := Nat.toDigits 10 d.digits
  if 0 ≤ d.exponent then text ++ List.replicate d.exponent.toNat '0' ++ ['.', '0']
  else
    let fraction := (-d.exponent).toNat
    if fraction < text.length then
      text.take (text.length - fraction) ++ '.' :: text.drop (text.length - fraction)
    else '0' :: '.' :: (List.replicate (fraction - text.length) '0' ++ text)

/-- One digit before the point, and a signed exponent; a single digit has no point. -/
def scientific (d : Digits) : List Char :=
  let mantissa := match Nat.toDigits 10 d.digits with
    | first :: second :: rest => first :: '.' :: second :: rest
    | text => text
  let sign := if 0 ≤ d.leadingPlace then '+' else '-'
  mantissa ++ 'e' :: sign :: Nat.toDigits 10 d.leadingPlace.natAbs

end Digits

namespace Convention

def isPositional (c : Convention) (d : Digits) : Bool :=
  match c.places with
  | none => true
  | some (least, greatest) => least ≤ d.leadingPlace && d.leadingPlace ≤ greatest

/-- The text of the number with the given bits. -/
def text (c : Convention) (bits : UInt64) : String :=
  let biased := ((bits >>> 52) &&& 0x7FF).toNat
  let fraction := (bits &&& 0xFFFFFFFFFFFFF).toNat
  let sign := if bits >>> 63 = 1 then ['-'] else []
  if biased = 0x7FF then
    if fraction = 0 then String.ofList (sign ++ "inf".toList) else "NaN"
  else if biased = 0 && fraction = 0 then String.ofList (sign ++ "0.0".toList)
  else
    let d := (Interval.ofFields biased fraction).shortest c.tie
    String.ofList (sign ++ if c.isPositional d then d.positional else d.scientific)

end Convention

end FolGraph.Decimal
