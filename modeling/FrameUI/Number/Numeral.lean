import FrameUI.Number.Single
import FrameUI.Text.Blank

/-!
# Decimal numerals

A numeral is an optional sign, digits with an optional point, and an optional exponent:
`[+-]? (digits ('.' digits?)? | '.' digits) ([eE] [+-]? digits)?`. Markup and stylesheets
write numbers loosely, so a value is read from the longest numeral at its front and
whatever follows is ignored: `100px` is one hundred and `px` is no number.
-/

namespace FrameUI

structure Numeral where
  negative : Bool
  whole : List Char
  fraction : List Char
  exponent : Int
deriving DecidableEq, Repr

namespace Numeral

/-! ### Reading the parts -/

def digitRun (s : List Char) : List Char := s.takeWhile Char.isDigit

def afterDigits (s : List Char) : List Char := s.dropWhile Char.isDigit

/-- An optional sign: whether it is a minus, and what follows. -/
def readSign : List Char → Bool × List Char
  | '+' :: r => (false, r)
  | '-' :: r => (true, r)
  | s => (false, s)

/-- The digits before and after an optional point, of which one side has to have some. -/
def readDigits (s : List Char) : Option (List Char × List Char × List Char) :=
  if (digitRun s).isEmpty then
    match s with
    | '.' :: r => if (digitRun r).isEmpty then none else some ([], digitRun r, afterDigits r)
    | _ => none
  else
    match afterDigits s with
    | '.' :: r => some (digitRun s, digitRun r, afterDigits r)
    | r => some (digitRun s, [], r)

def natOfDigits (ds : List Char) : Nat :=
  ds.foldl (fun n d => 10 * n + (d.toNat - 48)) 0

/-- An optional exponent. Without digits the letter is no exponent and stays unread. -/
def readExponent (s : List Char) : Int × List Char :=
  match s with
  | c :: r =>
    if c = 'e' ∨ c = 'E' then
      let (negative, t) := readSign r
      if (digitRun t).isEmpty then (0, s)
      else
        let n : Int := natOfDigits (digitRun t)
        (if negative then -n else n, afterDigits t)
    else (0, s)
  | [] => (0, s)

/-- The longest numeral at the front of a text, and what follows it. -/
def read? (s : List Char) : Option (Numeral × List Char) :=
  let (negative, r) := readSign s
  match readDigits r with
  | none => none
  | some (whole, fraction, rest) =>
    let (exponent, rest) := readExponent rest
    some (⟨negative, whole, fraction, exponent⟩, rest)

/-! ### The number that a numeral denotes -/

/-- The binary32 number nearest to `digits * 10 ^ exponent`. A number of forty-one or more
places before the point is out of range, and one that begins more than fifty places after
the point is nearest to zero. -/
def toSingle (negative : Bool) (digits : Nat) (exponent : Int) : Single :=
  let places : Int := (Nat.repr digits).length + exponent
  if digits = 0 then .finite negative 0
  else if places > 40 then .infinite negative
  else if places < -50 then .finite negative 0
  else .ofRatio negative (digits * Nat.pow 10 exponent.toNat)
    (Nat.pow 10 (-exponent).toNat)

def value (n : Numeral) : Single :=
  toSingle n.negative (natOfDigits (n.whole ++ n.fraction)) (n.exponent - n.fraction.length)

end Numeral

namespace Single

/-- The number at the front of a text, after any blanks. -/
def readFront? (s : List Char) : Option Single :=
  (Numeral.read? (Text.trimStart s)).map fun read => read.1.value

/-- The number at the front of a string, or `none` when there is none. -/
def ofFront? (s : String) : Option Single := readFront? s.toList

def ofFrontD (s : Option String) (default : Single) : Single :=
  (s.bind ofFront?).getD default

/-- Reads a text that is a numeral from end to end, or one of the names `inf`, `infinity`
and `nan` in either case after an optional sign. -/
def ofString? (s : String) : Option Single :=
  match Numeral.read? s.toList with
  | some (n, []) => some n.value
  | _ =>
    let (negative, r) := Numeral.readSign s.toList
    let word := String.ofList (r.map Char.toLower)
    if word = "inf" ∨ word = "infinity" then some (.infinite negative)
    else if word = "nan" then some .nan
    else none

end Single
end FrameUI
