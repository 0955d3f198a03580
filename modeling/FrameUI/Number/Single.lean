/-!
# Single-precision numbers

The numbers of the IEEE 754 format binary32. Every finite one is a whole multiple of
`2 ^ -149`, and is held here as a sign and that multiple, so that comparing, clamping and
rounding are exact integer arithmetic. Rounding goes to the nearest number of the format,
and a tie to the one with an even significand.
-/

namespace FrameUI

/-- A binary32 number; `finite` counts units of `2 ^ -149`. -/
inductive Single where
  | nan
  | infinite (negative : Bool)
  | finite (negative : Bool) (units : Nat)
deriving DecidableEq, Repr

namespace Single

/-! ### The grid of representable numbers -/

/-- The number of units in one: `2 ^ 149`. -/
def unitsPerOne : Nat := Nat.pow 2 149

/-- The number of units at which the finite range ends: `2 ^ 128` as a number. -/
def unitsLimit : Nat := Nat.pow 2 277

/-- The distance, in units, from a representable number of units to the next. -/
def spacing (units : Nat) : Nat := Nat.pow 2 (units.log2 - 23)

/-- The quotient rounded to the nearest whole number, a half to the even one. -/
def roundDiv (num den : Nat) : Nat :=
  let q := num / den
  let r := num % den
  if 2 * r < den then q
  else if den < 2 * r then q + 1
  else q + q % 2

/-- The number nearest to the quotient `num / den` of two whole numbers. -/
def ofRatio (negative : Bool) (num den : Nat) : Single :=
  let scaled := num * unitsPerOne
  let step := spacing (scaled / den)
  let units := roundDiv scaled (den * step) * step
  if units < unitsLimit then finite negative units else infinite negative

def ofNat (n : Nat) : Single := ofRatio false n 1

def zero : Single := finite false 0
def one : Single := finite false unitsPerOne
def half : Single := finite false (unitsPerOne / 2)

def negated : Single → Single
  | nan => nan
  | infinite negative => infinite !negative
  | finite negative units => finite (!negative) units

instance : Inhabited Single := ⟨zero⟩

/-! ### Order -/

/-- Where a number stands on the line of whole units; an infinity stands just outside the
finite range, and the value that is not a number stands nowhere. -/
def place? : Single → Option Int
  | nan => none
  | infinite negative => some (if negative then -(unitsLimit : Int) else unitsLimit)
  | finite negative units => some (if negative then -(units : Int) else units)

/-- Strictly less; false when either side is not a number. -/
def lt (a b : Single) : Bool :=
  match a.place?, b.place? with
  | some x, some y => decide (x < y)
  | _, _ => false

/-- Less or equal; false when either side is not a number. -/
def le (a b : Single) : Bool :=
  match a.place?, b.place? with
  | some x, some y => decide (x ≤ y)
  | _, _ => false

def isZero : Single → Bool
  | finite _ 0 => true
  | _ => false

/-- The nearest number between two bounds; what is not a number stays as it is. -/
def clamp (x low high : Single) : Single :=
  if x.lt low then low else if high.lt x then high else x

end Single
end FrameUI
