import FrameUI.Number.Numeral
import FrameUI.Proofs.Text.Spans

/-!
# Numerals in front of other text

A numeral is read as far as it goes, so a text that begins with no character of numerals can
stand behind it unnoticed, and the digits of a number tell which it is. Main statement:
`readFront?_append`, for the number at the front of a text.
-/

namespace FrameUI

open Text

namespace Numeral

/-- Whether a character may stand in a numeral. -/
def isNumeralChar (c : Char) : Bool := c.isDigit || "+-.eE".toList.contains c

variable {x : List Char}

/-! ### The parts of a numeral -/

theorem stopsAt_isDigit (hx : StopsAt isNumeralChar x) : StopsAt Char.isDigit x := by
  intro c hc
  have hnone := hx c hc
  rw [isNumeralChar, Bool.or_eq_false_iff] at hnone
  exact hnone.1

theorem head_ne_of_stopsAt {c d : Char} {s : List Char} (hx : StopsAt isNumeralChar (c :: s))
    (hd : isNumeralChar d = true) : c ≠ d := by
  rintro rfl
  rw [head_of_stopsAt _ c s hx] at hd
  cases hd

theorem digitRun_append (s : List Char) (hx : StopsAt isNumeralChar x) :
    digitRun (s ++ x) = digitRun s :=
  takeWhile_append_of_stopsAt _ s x (stopsAt_isDigit hx)

theorem afterDigits_append (s : List Char) (hx : StopsAt isNumeralChar x) :
    afterDigits (s ++ x) = afterDigits s ++ x :=
  dropWhile_append_of_stopsAt _ s x (stopsAt_isDigit hx)

theorem readSign_of_ne (c : Char) (s : List Char) (hplus : c ≠ '+') (hminus : c ≠ '-') :
    readSign (c :: s) = (false, c :: s) := by
  unfold readSign
  split
  · rename_i heq
    exact absurd (List.cons.inj heq).1 hplus
  · rename_i heq
    exact absurd (List.cons.inj heq).1 hminus
  · rfl

theorem readSign_append (s : List Char) (hx : StopsAt isNumeralChar x) :
    readSign (s ++ x) = ((readSign s).1, (readSign s).2 ++ x) := by
  cases s with
  | nil =>
    cases x with
    | nil => rfl
    | cons d x =>
      exact readSign_of_ne d x (head_ne_of_stopsAt hx (by decide))
        (head_ne_of_stopsAt hx (by decide))
  | cons c s =>
    by_cases hplus : c = '+'
    · rw [hplus]
      rfl
    · by_cases hminus : c = '-'
      · rw [hminus]
        rfl
      · rw [List.cons_append, readSign_of_ne c _ hplus hminus, readSign_of_ne c _ hplus hminus]
        rfl

/-- A fraction and what follows it: the digits after a point, if there is one. -/
def readFraction : List Char → List Char × List Char
  | '.' :: r => (digitRun r, afterDigits r)
  | s => ([], s)

theorem readFraction_of_ne (s : List Char) (hpoint : ∀ r, s = '.' :: r → False) :
    readFraction s = ([], s) := by
  unfold readFraction
  split
  · exact absurd rfl (hpoint _)
  · rfl

theorem readFraction_append (s : List Char) (hx : StopsAt isNumeralChar x) :
    readFraction (s ++ x) = ((readFraction s).1, (readFraction s).2 ++ x) := by
  cases s with
  | nil =>
    cases x with
    | nil => rfl
    | cons d x =>
      have hpoint : ∀ r, d :: x = '.' :: r → False := fun _ heq =>
        head_ne_of_stopsAt hx (by decide) (List.cons.inj heq).1
      exact readFraction_of_ne (d :: x) hpoint
  | cons c s =>
    by_cases hpoint : c = '.'
    · rw [hpoint]
      show (digitRun (s ++ x), afterDigits (s ++ x)) = (digitRun s, afterDigits s ++ x)
      rw [digitRun_append s hx, afterDigits_append s hx]
    · have hplain : ∀ t r, c :: t = '.' :: r → False := fun _ _ heq =>
        hpoint (List.cons.inj heq).1
      rw [List.cons_append, readFraction_of_ne _ (hplain _), readFraction_of_ne _ (hplain _)]
      rfl

/-- Digits and a fraction are read one after the other, and one of them has to be there. -/
theorem readDigits_eq (s : List Char) :
    readDigits s =
      if (digitRun s).isEmpty && (readFraction (afterDigits s)).1.isEmpty then none
      else some (digitRun s, readFraction (afterDigits s)) := by
  cases hdigits : (digitRun s).isEmpty with
  | true =>
    have hrest : afterDigits s = s := by
      have hall : digitRun s ++ afterDigits s = s := List.takeWhile_append_dropWhile
      rw [List.isEmpty_iff.mp hdigits] at hall
      exact hall
    rw [hrest, Bool.true_and]
    unfold readDigits
    rw [if_pos hdigits, List.isEmpty_iff.mp hdigits]
    split
    · rfl
    · rename_i hpoint
      rw [readFraction_of_ne s hpoint]
      rfl
  | false =>
    rw [Bool.false_and, if_neg Bool.false_ne_true]
    unfold readDigits
    rw [if_neg (by simp [hdigits])]
    split
    · rename_i heq
      rw [heq]
      rfl
    · rename_i hpoint
      rw [readFraction_of_ne _ hpoint]

theorem readDigits_append (s : List Char) (hx : StopsAt isNumeralChar x) :
    readDigits (s ++ x) = (readDigits s).map fun r => (r.1, r.2.1, r.2.2 ++ x) := by
  rw [readDigits_eq, readDigits_eq, digitRun_append s hx, afterDigits_append s hx,
    readFraction_append _ hx]
  split
  · rfl
  · rfl

theorem readExponent_append (s : List Char) (hx : StopsAt isNumeralChar x) :
    readExponent (s ++ x) = ((readExponent s).1, (readExponent s).2 ++ x) := by
  cases s with
  | nil =>
    cases x with
    | nil => rfl
    | cons d x =>
      have hletter : ¬(d = 'e' ∨ d = 'E') := by
        rintro (h | h)
        · exact head_ne_of_stopsAt hx (by decide) h
        · exact head_ne_of_stopsAt hx (by decide) h
      rw [List.nil_append, readExponent, if_neg hletter]
      rfl
  | cons c s =>
    rw [List.cons_append, readExponent, readExponent, readSign_append s hx]
    simp only [digitRun_append _ hx, afterDigits_append _ hx]
    split
    · split
      · rfl
      · rfl
    · rfl

/-- Text that begins with no character of numerals is left behind as it is. -/
theorem read?_append (s : List Char) (hx : StopsAt isNumeralChar x) :
    read? (s ++ x) = (read? s).map fun r => (r.1, r.2 ++ x) := by
  rw [read?, read?, readSign_append s hx]
  simp only [readDigits_append _ hx]
  cases readDigits (readSign s).2 with
  | none => rfl
  | some parts => simp only [Option.map_some, readExponent_append _ hx]

/-- Numbers written alike are the same. -/
theorem repr_inj (m n : Nat) (h : m.repr = n.repr) : m = n := by
  have hdigits := congrArg (Nat.ofDigitChars 10 · 0) (String.ofList_injective h)
  simp only [Nat.ofDigitChars_ten_toDigits] at hdigits
  exact hdigits

end Numeral

namespace Single

/-- What begins neither with a blank nor with a character of numerals does not change the
number in front of it. -/
theorem readFront?_append (s x : List Char) (hblank : StopsAt isBlank x)
    (hx : StopsAt Numeral.isNumeralChar x) : readFront? (s ++ x) = readFront? s := by
  have htrim : trimStart (s ++ x) = trimStart s ++ x :=
    dropWhile_append_of_stopsAt isBlank s x hblank
  rw [readFront?, readFront?, htrim, Numeral.read?_append _ hx, Option.map_map]
  rfl

end Single
end FrameUI
