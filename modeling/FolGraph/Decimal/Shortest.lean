/-!
The shortest digits of a binary floating-point number of 64 bits: the fewest digits that read back
as the number, and of those the nearest to it.
-/

namespace FolGraph.Decimal

/-- A positive number and the interval of the reals that round to it, in units of
`2 ^ (unit - 1076)`. A unit is a quarter of the last place, so that the ends are whole. -/
structure Interval where
  value : Nat
  low : Nat
  high : Nat
  /-- Whether the ends themselves round to the number. -/
  closed : Bool
  unit : Nat
  deriving DecidableEq, Repr

/-- The numbers that round to the positive number with the given fields. -/
def Interval.ofFields (biased fraction : Nat) : Interval :=
  let significand := if biased = 0 then fraction else Nat.pow 2 52 + fraction
  let value := 4 * significand
  { value
    low := if fraction = 0 && 1 < biased then value - 1 else value - 2
    high := value + 2
    closed := significand % 2 == 0
    unit := if biased = 0 then 0 else biased - 1 }

/-- Which of two decimals that are equally near to a number is chosen. -/
inductive Tie where
  | greater
  /-- The one whose last digit is even. -/
  | even
  deriving DecidableEq, Repr

/-- The number `digits * 10 ^ exponent`. -/
structure Digits where
  digits : Nat
  exponent : Int
  deriving DecidableEq, Repr

namespace Interval

/-- `x` units, scaled so that it can be compared with `scaleGrid` at the same exponent. -/
def scaleUnits (iv : Interval) (exponent : Int) (x : Nat) : Nat :=
  x * Nat.pow 2 (iv.unit - 1076) * Nat.pow 10 (-exponent).toNat

/-- `c * 10 ^ exponent`, scaled so that it can be compared with `scaleUnits`. -/
def scaleGrid (iv : Interval) (exponent : Int) (c : Nat) : Nat :=
  c * Nat.pow 10 exponent.toNat * Nat.pow 2 (1076 - iv.unit)

/-- Whether `c * 10 ^ exponent` rounds to the number. -/
def contains (iv : Interval) (exponent : Int) (c : Nat) : Bool :=
  let x := iv.scaleGrid exponent c
  let low := iv.scaleUnits exponent iv.low
  let high := iv.scaleUnits exponent iv.high
  if iv.closed then low ≤ x && x ≤ high else low < x && x < high

/-- The nearest multiple of `10 ^ exponent` that rounds to the number, if there is one. -/
def nearestOn? (iv : Interval) (tie : Tie) (exponent : Int) : Option Digits :=
  let v := iv.scaleUnits exponent iv.value
  let step := iv.scaleGrid exponent 1
  let below := v / step
  match iv.contains exponent below, iv.contains exponent (below + 1) with
  | true, true =>
    let down := v - below * step
    let up := (below + 1) * step - v
    if down < up || (down = up && tie = .even && below % 2 = 0) then some ⟨below, exponent⟩
    else some ⟨below + 1, exponent⟩
  | true, false => some ⟨below, exponent⟩
  | false, true => some ⟨below + 1, exponent⟩
  | false, false => none

/-- Tries the grids from coarse to fine. -/
def firstHit (iv : Interval) (tie : Tie) : Nat → Int → Digits
  | 0, exponent => ⟨0, exponent⟩
  | fuel + 1, exponent =>
    match iv.nearestOn? tie exponent with
    | some d => d
    | none => iv.firstHit tie fuel (exponent - 1)

/-- The shortest digits; every positive number lies below `10 ^ 309`, and a grid of `10 ^ (-325)`
is finer than any interval. -/
def shortest (iv : Interval) (tie : Tie) : Digits := iv.firstHit tie 640 309

end Interval

end FolGraph.Decimal
