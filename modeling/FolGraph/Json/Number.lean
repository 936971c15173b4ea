import FolGraph.Json.Draft

/-!
The value of a number as written. A whole number of at most 64 bits is exact. Any other number is
a floating-point number made of the leading digits that fit into 64 bits and a power of ten, by
one multiplication or division; so its last bit may differ from that of the nearest one.
-/

namespace FolGraph.Json.Numeral

/-- What a number as written stands for. -/
inductive Reading where
  | integer (i : Int)
  | float (bits : UInt64)
  | outOfRange
  deriving DecidableEq, Repr

/-- Appends digits to a significand as long as it stays below `2 ^ 64`; returns the digits that are
left over. -/
def accumulate (significand : Nat) : List Nat → Nat × List Nat
  | [] => (significand, [])
  | d :: ds =>
    if Nat.pow 2 64 ≤ significand * 10 + d then (significand, d :: ds)
    else accumulate (significand * 10 + d) ds

def powerOfTen (n : Nat) : Float := Float.ofScientific 1 false n

/-- Scales by a power of ten; powers beyond those that floating-point numbers reach are applied in
steps, for as long as anything is left. -/
def scale : Nat → Float → Int → Option Float
  | 0, f, _ => some f
  | fuel + 1, f, exponent =>
    if exponent.natAbs ≤ 308 then
      if 0 ≤ exponent then
        let f := f * powerOfTen exponent.natAbs
        if f.isInf then none else some f
      else some (f / powerOfTen exponent.natAbs)
    else if f == 0 then some f
    else if 0 ≤ exponent then none
    else scale fuel (f / powerOfTen 308) (exponent + 308)

/-- The floating-point number with a sign, a significand and an exponent. -/
def ofParts (negative : Bool) (significand : Nat) (exponent : Int) : Reading :=
  match scale 4 (UInt64.ofNat significand).toFloat exponent with
  | some f => .float (if negative then -f else f).toBits
  | none => .outOfRange

/-- The digits of an exponent, none if they exceed 31 bits. -/
def exponentValue? (ds : List Nat) : Option Nat :=
  let n := ds.foldl (fun n d => n * 10 + d) 0
  if n < Nat.pow 2 31 then some n else none

def reading (n : Numeral) : Reading :=
  let (significand, left) := accumulate 0 n.whole
  if left.isEmpty && n.fraction.isEmpty && n.exponent.isNone then
    if !n.negative then .integer significand
    else if significand = 0 || Nat.pow 2 63 < significand then ofParts true significand 0
    else .integer (-significand)
  else
    let (significand, unread) := accumulate significand n.fraction
    let shift : Int := left.length - (n.fraction.length - unread.length : Nat)
    match n.exponent with
    | none => ofParts n.negative significand shift
    | some (down, ds) =>
      match exponentValue? ds with
      | some e => ofParts n.negative significand (if down then shift - e else shift + e)
      | none =>
        if significand ≠ 0 && !down then .outOfRange else ofParts n.negative 0 0

end FolGraph.Json.Numeral
