import FrameUI.Number.Single

/-!
# Shortest decimal text of a number

A finite number is shown by the fewest decimal digits that are read back as the same
number, and of those by the nearest, a tie going up. They are found on the grids of
multiples of `10 ^ exponent`, from coarse to fine: on each grid the two neighbours of the
number are compared with the interval of reals that are rounded to it. The text is always
positional, with neither exponent nor trailing `.0`.
-/

namespace FrameUI.Single

/-! ### The interval of reals rounded to a number -/

/-- The interval that is rounded to a number of units, measured in quarters of a unit. Its
ends belong to it when the significand is even. -/
structure Interval where
  low : Nat
  middle : Nat
  high : Nat
  closed : Bool
deriving Repr

/-- The interval rounded to a positive number of units. Just above a power of two the lower
neighbour is half as far away as the upper one. -/
def interval (units : Nat) : Interval :=
  let step := spacing units
  let below := if units = Nat.pow 2 23 * step ∧ 1 < step then step else 2 * step
  ⟨4 * units - below, 4 * units, 4 * units + 2 * step, units / step % 2 == 0⟩

/-- Whether the quotient `num / den`, in quarters of a unit, lies in the interval. -/
def Interval.has (i : Interval) (num den : Nat) : Bool :=
  if i.closed then decide (i.low * den ≤ num) && decide (num ≤ i.high * den)
  else decide (i.low * den < num) && decide (num < i.high * den)

/-! ### The coarsest grid that has a point in the interval -/

/-- The point of the grid of multiples of `10 ^ exponent` that lies in the interval and is
nearest to the number, as a count of grid steps. -/
def gridPoint? (i : Interval) (exponent : Int) : Option Nat :=
  let num := 4 * unitsPerOne * Nat.pow 10 exponent.toNat
  let den := Nat.pow 10 (-exponent).toNat
  let below := i.middle * den / num
  let lowFits := i.has (below * num) den
  let highFits := i.has ((below + 1) * num) den
  if lowFits && highFits then
    some (if 2 * (i.middle * den) < (2 * below + 1) * num then below else below + 1)
  else if lowFits then some below
  else if highFits then some (below + 1)
  else none

/-- The digits of the shortest decimal and the exponent of the grid they count. The grids
from `10 ^ 39` down to `10 ^ -60` are enough for every number of the format. -/
def shortest (units : Nat) : Nat × Int :=
  let i := interval units
  ((List.range 100).findSome? fun (n : Nat) =>
    let exponent : Int := 39 - (n : Int)
    (gridPoint? i exponent).map fun digits => (digits, exponent)).getD (0, 0)

/-! ### Positional text -/

/-- `digits * 10 ^ exponent` written with a point and no exponent. -/
def positional (digits : Nat) (exponent : Int) : List Char :=
  let ds := Nat.toDigits 10 digits
  if 0 ≤ exponent then ds ++ List.replicate exponent.toNat '0'
  else
    let places := (-exponent).toNat
    if places < ds.length then
      ds.take (ds.length - places) ++ '.' :: ds.drop (ds.length - places)
    else
      ['0', '.'] ++ List.replicate (places - ds.length) '0' ++ ds

def magnitude (units : Nat) : List Char :=
  if units = 0 then ['0']
  else positional (shortest units).1 (shortest units).2

/-- The shortest text that is read back as the same number. -/
def text : Single → String
  | nan => "NaN"
  | infinite negative => if negative then "-inf" else "inf"
  | finite negative units =>
    String.ofList (if negative then '-' :: magnitude units else magnitude units)

instance : ToString Single := ⟨text⟩

end FrameUI.Single
