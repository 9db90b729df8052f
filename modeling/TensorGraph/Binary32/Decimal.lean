import TensorGraph.Binary32.Basic

/-! # Shortest decimal text

A finite number is written as a decimal that reads back as the same number. Of all such decimals
the text takes one on the coarsest grid of multiples of a power of ten, so with the fewest digits,
and of two on that grid the nearer one; an exact tie goes up. Digits are written positionally,
never with an exponent, and a whole number without a point. -/

namespace TensorGraph.Binary32

/-! ### The numbers that read back -/

/-- The reals that round to a number: from `low / den` to `high / den`, around `mid / den`, with
the two ends included when `closed`. -/
structure Neighbourhood where
  low : Nat
  mid : Nat
  high : Nat
  den : Nat
  closed : Bool
  deriving DecidableEq

/-- The neighbourhood of the magnitude of a finite number. It reaches half a step up and half a
step down; below a power of two the steps are half as long. -/
def neighbourhood (x : Binary32) : Neighbourhood where
  low := (4 * x.significand - if x.fraction = 0 ∧ 1 < x.exponent then 1 else 2) * Nat.pow 2 x.scale
  mid := 4 * x.significand * Nat.pow 2 x.scale
  high := (4 * x.significand + 2) * Nat.pow 2 x.scale
  den := Nat.pow 2 151
  closed := x.significand % 2 = 0

/-- Whether `num / (den * factor)` lies in the neighbourhood. -/
def Neighbourhood.holds (n : Neighbourhood) (num factor : Nat) : Bool :=
  if n.closed then n.low * factor ≤ num ∧ num ≤ n.high * factor
  else n.low * factor < num ∧ num < n.high * factor

/-- The multiple of `10 ^ power` that lies in the neighbourhood, the one nearer to the middle if
there are two around it. -/
def Neighbourhood.gridPoint? (n : Neighbourhood) (power : Int) : Option Nat :=
  let factor := Nat.pow 10 (-power).toNat
  let step := Nat.pow 10 power.toNat * n.den
  let below := n.mid * factor / step
  match n.holds (below * step) factor, n.holds ((below + 1) * step) factor with
  | true, true => some (if 2 * (n.mid * factor) < (2 * below + 1) * step then below else below + 1)
  | true, false => some below
  | false, true => some (below + 1)
  | false, false => none

/-- The powers of ten whose grids `shortest` tries, from the coarsest on. The steps of the last grid
are shorter than the least distance between two numbers. -/
def gridPowers : List Int := (List.range 84).map fun (k : Nat) => 38 - (k : Int)

/-- The shortest decimal of the magnitude of a finite number: a count and its power of ten. -/
def shortest (x : Binary32) : Nat × Int :=
  (gridPowers.findSome? fun p => (x.neighbourhood.gridPoint? p).map (·, p)).getD (0, 0)

/-! ### Text -/

/-- The positional text of `count * 10 ^ power`. -/
def positional (count : Nat) (power : Int) : String :=
  let places := (-power).toNat
  if places = 0 then toString (count * Nat.pow 10 power.toNat)
  else
    let one := Nat.pow 10 places
    let digits := toString (count % one)
    s!"{count / one}." ++ "".pushn '0' (places - digits.length) ++ digits

/-- The text of the magnitude of a number. -/
def magnitudeText (x : Binary32) : String :=
  if x.isInfinite then "inf"
  else if x.isZero then "0"
  else positional x.shortest.1 x.shortest.2

/-- The text of a number: its sign and `magnitudeText`; what is no number has no sign. -/
def text (x : Binary32) : String :=
  if x.isNaN then "NaN"
  else if x.negative then "-" ++ x.magnitudeText
  else x.magnitudeText

end TensorGraph.Binary32
