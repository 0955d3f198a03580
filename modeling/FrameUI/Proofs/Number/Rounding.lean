import FrameUI.Number.Numeral
import Mathlib.Algebra.Order.Field.Power
import Mathlib.Algebra.Order.Field.Rat
import Mathlib.Tactic.FieldSimp
import Mathlib.Tactic.Linarith
import Mathlib.Tactic.NormNum
import Mathlib.Tactic.Positivity

/-!
# Rounding of numerals

The number that a numeral denotes is rounded to the nearest number whose significand has 24
bits, a tie to the even significand, and what is rounded to the end of the range or past it
is infinite. The shortcuts for very large and very small numbers give the same answer. Main
statement: `rounds_value`.
-/

namespace FrameUI
namespace Single

/-! ### Nearest numbers -/

/-- The numbers of units that 24 significant bits can hold, if the range had no end. -/
def OnGrid (units : Nat) : Prop :=
  ∃ significand shift : Nat, significand < 2 ^ 24 ∧ units = significand * 2 ^ shift

/-- A number of units that the format holds and that no other is nearer to `q` than; if
another is as near, the significand of this one is even. -/
structure IsNearest (units : Nat) (q : ℚ) : Prop where
  grid : OnGrid units
  nearest : ∀ other, OnGrid other → |(units : ℚ) - q| ≤ |(other : ℚ) - q|
  even : ∀ other, OnGrid other → other ≠ units → |(other : ℚ) - q| = |(units : ℚ) - q| →
    2 ∣ units / spacing units

/-- A number of the format is the rounding of `q` with a sign: the nearest one, or an
infinity when the nearest one is not in the range. -/
inductive Rounds (negative : Bool) (q : ℚ) : Single → Prop where
  | finite (units : Nat) (h : IsNearest units (q * unitsPerOne)) (hlimit : units < unitsLimit) :
      Rounds negative q (.finite negative units)
  | infinite (units : Nat) (h : IsNearest units (q * unitsPerOne))
      (hlimit : unitsLimit ≤ units) : Rounds negative q (.infinite negative)

theorem onGrid_mul_pow {k : Nat} (shift : Nat) (hk : k ≤ 2 ^ 24) : OnGrid (k * 2 ^ shift) := by
  rcases hk.lt_or_eq with hlt | rfl
  · exact ⟨k, shift, hlt, rfl⟩
  · exact ⟨1, shift + 24, by norm_num, by rw [one_mul, pow_add, mul_comm]⟩

/-- The finite range ends at `2 ^ 128`. -/
theorem unitsLimit_eq : unitsLimit = 2 ^ 128 * unitsPerOne := by
  have hsplit : ∀ a b bits, bits = a + b → Nat.pow 2 bits = 2 ^ a * Nat.pow 2 b := by
    rintro a b bits rfl
    exact pow_add 2 a b
  delta unitsLimit unitsPerOne
  exact hsplit 128 149 277 rfl

theorem unitsLimit_pos : 0 < unitsLimit := by
  rw [unitsLimit_eq]
  exact Nat.mul_pos (by positivity) (Nat.two_pow_pos 149)

theorem onGrid_unitsLimit : OnGrid unitsLimit :=
  ⟨1, 128 + 149, by norm_num, by
    rw [one_mul, pow_add]
    exact unitsLimit_eq⟩

/-- Above a power of two, the grid is no finer than the spacing there. -/
theorem OnGrid.dvd_or_lt {units : Nat} (h : OnGrid units) (bits : Nat) :
    2 ^ (bits - 23) ∣ units ∨ units < 2 ^ bits := by
  obtain ⟨k, shift, hk, rfl⟩ := h
  by_cases hshift : bits - 23 ≤ shift
  · exact Or.inl ((pow_dvd_pow 2 hshift).mul_left k)
  · right
    calc k * 2 ^ shift < 2 ^ 24 * 2 ^ shift := by gcongr
      _ = 2 ^ (24 + shift) := (pow_add 2 24 shift).symm
      _ ≤ 2 ^ bits := Nat.pow_le_pow_right (by norm_num) (by omega)

/-- What is nearest to a number is no less than anything of the format below that number. -/
theorem IsNearest.le_of_le {units bound : Nat} {q : ℚ} (h : IsNearest units q)
    (hbound : OnGrid bound) (hq : (bound : ℚ) ≤ q) : bound ≤ units := by
  by_contra hlt
  have hlt : (units : ℚ) < bound := Nat.cast_lt.mpr (not_le.mp hlt)
  have hnear := h.nearest bound hbound
  rw [abs_of_nonpos (by linarith), abs_of_nonpos (by linarith)] at hnear
  linarith

/-- Zero is nearest to what is less than half a unit. -/
theorem isNearest_zero {q : ℚ} (hq : 0 ≤ q) (hhalf : q < 1 / 2) : IsNearest 0 q := by
  refine ⟨⟨0, 0, by norm_num, rfl⟩, fun other _ => ?_, fun _ _ _ _ => by simp⟩
  rcases Nat.eq_zero_or_pos other with rfl | hpos
  · exact le_rfl
  · have hone : (1 : ℚ) ≤ other := by exact_mod_cast hpos
    rw [Nat.cast_zero, zero_sub, abs_neg, abs_of_nonneg hq, abs_of_nonneg (by linarith)]
    linarith

/-! ### Rounding a quotient -/

/-- Rounding errs by a half at most, and by a half only towards an even number. -/
theorem roundDiv_error (num den : Nat) (hden : 0 < den) :
    |(roundDiv num den : ℚ) - num / den| ≤ 1 / 2 ∧
      (|(roundDiv num den : ℚ) - num / den| = 1 / 2 → 2 ∣ roundDiv num den) := by
  have hdenq : (0 : ℚ) < den := Nat.cast_pos.mpr hden
  have hquot : (num : ℚ) / den = (num / den : Nat) + (num % den : Nat) / den := by
    rw [div_eq_iff hdenq.ne', add_mul, div_mul_cancel₀ _ hdenq.ne', mul_comm]
    exact_mod_cast (Nat.div_add_mod num den).symm
  have hpart : (0 : ℚ) ≤ (num % den : Nat) / den := by positivity
  have hbelow : ((num % den : Nat) : ℚ) / den < 1 := by
    rw [div_lt_one hdenq]
    exact_mod_cast Nat.mod_lt num hden
  rw [hquot, roundDiv]
  generalize num / den = q at *
  generalize num % den = r at *
  split_ifs with hless hmore
  · have hr : (r : ℚ) / den < 1 / 2 := by
      rw [div_lt_div_iff₀ hdenq two_pos]
      exact_mod_cast (by omega : r * 2 < 1 * den)
    rw [sub_add_cancel_left, abs_neg, abs_of_nonneg hpart]
    exact ⟨hr.le, fun heq => absurd heq hr.ne⟩
  · have hr : 1 / 2 < (r : ℚ) / den := by
      rw [div_lt_div_iff₀ two_pos hdenq]
      exact_mod_cast (by omega : 1 * den < r * 2)
    rw [Nat.cast_add, Nat.cast_one, add_sub_add_left_eq_sub, abs_of_pos (by linarith)]
    exact ⟨by linarith, fun heq => by linarith⟩
  · have hr : (r : ℚ) / den = 1 / 2 := by
      rw [div_eq_div_iff hdenq.ne' two_ne_zero]
      exact_mod_cast (by omega : r * 2 = 1 * den)
    refine ⟨?_, fun _ => by omega⟩
    rw [hr, Nat.cast_add, add_sub_add_left_eq_sub]
    rcases Nat.mod_two_eq_zero_or_one q with hq | hq
    · norm_num [hq]
    · norm_num [hq]

/-- Two different multiples of a step are at least a step apart, so one that is within half
a step of a number leaves the others at half a step or more. -/
theorem half_le_abs_sub {step units other : Nat} {q : ℚ}
    (herror : |(units : ℚ) - q| ≤ step / 2) (hunits : step ∣ units) (hother : step ∣ other)
    (hne : other ≠ units) : (step : ℚ) / 2 ≤ |(other : ℚ) - q| := by
  have hapart : (step : ℚ) ≤ |(other : ℚ) - units| := by
    have hdvd : (step : ℤ) ∣ (other : ℤ) - units :=
      dvd_sub (Int.natCast_dvd_natCast.mpr hother) (Int.natCast_dvd_natCast.mpr hunits)
    have hpos : (0 : ℤ) < |(other : ℤ) - units| :=
      abs_pos.mpr (sub_ne_zero.mpr (by exact_mod_cast hne))
    exact_mod_cast Int.le_of_dvd hpos ((dvd_abs _ _).mpr hdvd)
  have htriangle := abs_sub_le (other : ℚ) q units
  rw [abs_sub_comm q] at htriangle
  linarith

/-- The spacing at `k * 2 ^ shift` is `2 ^ shift` when `k` has 24 bits, or fewer at the
small end of the grid. -/
theorem spacing_mul_pow {k shift : Nat} (hpos : 0 < k) (hk : k < 2 ^ 24)
    (hlow : shift = 0 ∨ 2 ^ 23 ≤ k) : spacing (k * 2 ^ shift) = 2 ^ shift := by
  have hbits : (k * 2 ^ shift).log2 - 23 = shift := by
    rcases hlow with rfl | hlow
    · have hlog : k.log2 < 24 := (Nat.log2_lt hpos.ne').mpr hk
      rw [pow_zero, mul_one]
      omega
    · have hlog : (k * 2 ^ shift).log2 = 23 + shift := by
        rw [Nat.log2_eq_iff (by positivity), add_right_comm, pow_add, pow_add]
        exact ⟨Nat.mul_le_mul_right _ hlow, Nat.mul_lt_mul_of_pos_right hk (by positivity)⟩
      omega
  rw [spacing, hbits]
  rfl

/-- An even factor stays even as a significand. Rounding can raise it to `2 ^ 24`, which has
one bit too many and is written with half of it. -/
theorem even_significand {k shift : Nat} (heven : 2 ∣ k) (hk : k ≤ 2 ^ 24)
    (hlow : shift = 0 ∨ 2 ^ 23 ≤ k) :
    2 ∣ k * 2 ^ shift / spacing (k * 2 ^ shift) := by
  rcases Nat.eq_zero_or_pos k with rfl | hpos
  · simp
  · rcases hk.lt_or_eq with hlt | rfl
    · rw [spacing_mul_pow hpos hlt hlow, Nat.mul_div_cancel _ (by positivity)]
      exact heven
    · have hhalf : 2 ^ 24 * 2 ^ shift = 2 ^ 23 * 2 ^ (shift + 1) := by
        rw [← pow_add, ← pow_add, ← add_assoc, add_right_comm]
      rw [hhalf, spacing_mul_pow (by norm_num) (by norm_num) (Or.inr le_rfl),
        Nat.mul_div_cancel _ (by positivity)]
      norm_num

section
variable {k shift : Nat} {q : ℚ} (herror : |(k * 2 ^ shift : Nat) - q| ≤ 2 ^ shift / 2)
include herror

theorem factor_le (hhigh : q < 2 ^ (shift + 24)) : k ≤ 2 ^ 24 := by
  have hstep : (0 : ℚ) < 2 ^ shift := by positivity
  have hbelow : (k : ℚ) * 2 ^ shift < (2 ^ 24 + 1) * 2 ^ shift := by
    have hle := (abs_le.mp herror).2
    push_cast at hle
    rw [pow_add] at hhigh
    linarith
  exact Nat.lt_succ_iff.mp (by exact_mod_cast lt_of_mul_lt_mul_right hbelow hstep.le)

theorem le_factor (hbase : 2 ^ (shift + 23) ≤ q) : 2 ^ 23 ≤ k := by
  have hstep : (0 : ℚ) < 2 ^ shift := by positivity
  have habove : (2 ^ 23 : ℚ) * 2 ^ shift < (k + 1) * 2 ^ shift := by
    have hle := (abs_le.mp herror).1
    push_cast at hle
    rw [pow_add] at hbase
    linarith
  exact Nat.lt_succ_iff.mp (by exact_mod_cast lt_of_mul_lt_mul_right habove hstep.le)

theorem half_le_of_dvd {other : Nat} (hdvd : 2 ^ shift ∣ other) (hne : other ≠ k * 2 ^ shift) :
    (2 ^ shift / 2 : ℚ) ≤ |(other : ℚ) - q| := by
  have hhalf : ((2 ^ shift : Nat) / 2 : ℚ) ≤ |(other : ℚ) - q| :=
    half_le_abs_sub (by exact_mod_cast herror) (Nat.dvd_mul_left _ _) hdvd hne
  exact_mod_cast hhalf

/-- What is less than the least number with this step is farther away, because that one, a
multiple of the step, is not nearer. -/
theorem lt_abs_sub_of_lt {other : Nat} (hbase : 2 ^ (shift + 23) ≤ q)
    (hother : other < 2 ^ (shift + 23)) :
    |(k * 2 ^ shift : Nat) - q| < |(other : ℚ) - q| := by
  have hotherq : (other : ℚ) < 2 ^ (shift + 23) := by exact_mod_cast hother
  have hdist : |(2 ^ (shift + 23) : Nat) - q| = q - 2 ^ (shift + 23) := by
    rw [abs_sub_comm, Nat.cast_pow, Nat.cast_ofNat, abs_of_nonneg (by linarith)]
  have hnear : |(k * 2 ^ shift : Nat) - q| ≤ q - 2 ^ (shift + 23) := by
    rw [← hdist]
    by_cases heq : 2 ^ (shift + 23) = k * 2 ^ shift
    · rw [heq]
    · exact herror.trans
        (half_le_of_dvd herror (pow_dvd_pow 2 (Nat.le_add_right _ _)) heq)
  have hfar : q - other ≤ |(other : ℚ) - q| := by
    rw [abs_sub_comm]
    exact le_abs_self _
  linarith

/-- The grid at `q` has steps of `2 ^ shift`, so what is within half a step of `q`, and at
half a step is even, is nearest to it. -/
theorem isNearest_of_error (hlow : shift = 0 ∨ 2 ^ (shift + 23) ≤ q)
    (hhigh : q < 2 ^ (shift + 24))
    (htie : |(k * 2 ^ shift : Nat) - q| = 2 ^ shift / 2 → 2 ∣ k) :
    IsNearest (k * 2 ^ shift) q := by
  have hk := factor_le herror hhigh
  have hcoarse : ∀ other, ¬2 ^ shift ∣ other → OnGrid other →
      |(k * 2 ^ shift : Nat) - q| < |(other : ℚ) - q| := fun other hdvd hgrid => by
    have hother := (hgrid.dvd_or_lt (shift + 23)).resolve_left hdvd
    have hbase := hlow.resolve_left fun hzero => hdvd (by rw [hzero]; exact one_dvd other)
    exact lt_abs_sub_of_lt herror hbase hother
  refine ⟨onGrid_mul_pow shift hk, fun other hgrid => ?_, fun other hgrid hne heq => ?_⟩
  · by_cases hdvd : 2 ^ shift ∣ other
    · by_cases hne : other = k * 2 ^ shift
      · rw [hne]
      · exact herror.trans (half_le_of_dvd herror hdvd hne)
    · exact (hcoarse other hdvd hgrid).le
  · by_cases hdvd : 2 ^ shift ∣ other
    · have hhalf := heq ▸ half_le_of_dvd herror hdvd hne
      exact even_significand (htie (le_antisymm herror hhalf)) hk
        (hlow.imp_right (le_factor herror))
    · exact absurd heq (hcoarse other hdvd hgrid).ne'

end

/-- The multiple of the spacing at the quotient that is nearest to it is the nearest of the
whole grid. -/
theorem isNearest_roundDiv (num den : Nat) (hden : 0 < den) :
    IsNearest (roundDiv num (den * spacing (num / den)) * spacing (num / den)) (num / den) := by
  have hdenq : (0 : ℚ) < den := Nat.cast_pos.mpr hden
  obtain ⟨shift, hshift⟩ : ∃ shift, shift = (num / den).log2 - 23 := ⟨_, rfl⟩
  have hstep : spacing (num / den) = 2 ^ shift := by
    rw [hshift]
    rfl
  have hstepq : (0 : ℚ) < 2 ^ shift := by positivity
  obtain ⟨herror, htie⟩ := roundDiv_error num (den * 2 ^ shift) (by positivity)
  rw [hstep]
  generalize roundDiv num (den * 2 ^ shift) = k at *
  have hscale : |(k * 2 ^ shift : Nat) - (num : ℚ) / den| =
      |(k : ℚ) - num / (den * 2 ^ shift : Nat)| * 2 ^ shift := by
    rw [← abs_of_pos hstepq, ← abs_mul]
    congr 1
    push_cast
    field_simp
  refine isNearest_of_error ?_ ?_ ?_ ?_
  · rw [hscale]
    linarith [mul_le_mul_of_nonneg_right herror hstepq.le]
  · by_cases hsmall : (num / den).log2 ≤ 23
    · exact Or.inl (by omega)
    · right
      have hpos : num / den ≠ 0 := by
        rintro hzero
        rw [hzero] at hsmall
        exact hsmall (by decide)
      have hlog : shift + 23 = (num / den).log2 := by omega
      rw [le_div_iff₀ hdenq, hlog]
      exact_mod_cast (Nat.le_div_iff_mul_le hden).mp (Nat.log2_self_le hpos)
  · rw [div_lt_iff₀ hdenq]
    have hlog : 2 ^ ((num / den).log2 + 1) ≤ 2 ^ (shift + 24) :=
      Nat.pow_le_pow_right two_pos (by omega)
    exact_mod_cast (Nat.div_lt_iff_lt_mul hden).mp (Nat.lt_log2_self.trans_le hlog)
  · intro heq
    rw [hscale] at heq
    exact htie (mul_right_cancel₀ hstepq.ne' (by linarith))

/-- The number nearest to a quotient rounds it. -/
theorem rounds_ofRatio (negative : Bool) (num den : Nat) (hden : 0 < den) :
    Rounds negative (num / den) (ofRatio negative num den) := by
  have hnearest := isNearest_roundDiv (num * unitsPerOne) den hden
  rw [Nat.cast_mul, mul_div_right_comm] at hnearest
  rw [ofRatio]
  split_ifs with hlimit
  · exact .finite _ hnearest hlimit
  · exact .infinite _ hnearest (not_lt.mp hlimit)

end Single

namespace Numeral

/-! ### The value of a numeral -/

/-- The number that a numeral denotes, less its sign. -/
def magnitude (n : Numeral) : ℚ :=
  natOfDigits (n.whole ++ n.fraction) * 10 ^ (n.exponent - n.fraction.length)

theorem zpow_ten (e : Int) : (10 : ℚ) ^ e = (10 ^ e.toNat : Nat) / (10 ^ (-e).toNat : Nat) := by
  cases e with
  | ofNat e => simp
  | negSucc e => simp [zpow_negSucc]

theorem pow_le_of_repr {digits places : Nat} (hdigits : digits ≠ 0)
    (hlength : (Nat.repr digits).length = places + 1) : 10 ^ places ≤ digits := by
  rcases Nat.eq_zero_or_pos places with rfl | hpos
  · exact Nat.one_le_iff_ne_zero.mpr hdigits
  · by_contra hlt
    have hle := (Nat.length_repr_le_iff hpos).mpr (not_le.mp hlt)
    omega

/-- A number of more than forty places before the point is past the end of the range. -/
theorem unitsLimit_le {digits : Nat} {e : Int} (hdigits : digits ≠ 0)
    (hplaces : (Nat.repr digits).length + e > 40) :
    (Single.unitsLimit : ℚ) ≤ digits * 10 ^ e * Single.unitsPerOne := by
  obtain ⟨places, hlength⟩ : ∃ places, (Nat.repr digits).length = places + 1 :=
    Nat.exists_eq_add_one.mpr Nat.length_repr_pos
  have hdigitsq : (10 ^ places : ℚ) ≤ digits := by exact_mod_cast pow_le_of_repr hdigits hlength
  have hlarge : (2 : ℚ) ^ 128 ≤ digits * 10 ^ e :=
    calc (2 : ℚ) ^ 128 ≤ 10 ^ (40 : Int) := by norm_num
      _ ≤ 10 ^ (places + e) := zpow_le_zpow_right₀ (by norm_num) (by omega)
      _ = 10 ^ places * 10 ^ e := by rw [zpow_add₀ (by norm_num), zpow_natCast]
      _ ≤ digits * 10 ^ e := by gcongr
  rw [Single.unitsLimit_eq, Nat.cast_mul, Nat.cast_pow, Nat.cast_ofNat]
  gcongr

/-- A number that begins more than fifty places after the point is less than half a unit. -/
theorem lt_half_unit {digits : Nat} {e : Int}
    (hplaces : (Nat.repr digits).length + e < -50) :
    (digits * 10 ^ e * Single.unitsPerOne : ℚ) < 1 / 2 := by
  have hdigitsq : (digits : ℚ) < 10 ^ (Nat.repr digits).length := by
    exact_mod_cast (Nat.length_repr_le_iff Nat.length_repr_pos).mp le_rfl
  have hunits : (Single.unitsPerOne : ℚ) = 2 ^ 149 := by norm_num [Single.unitsPerOne]
  have hsmall : (digits * 10 ^ e : ℚ) < 10 ^ (-51 : Int) :=
    calc (digits * 10 ^ e : ℚ) < 10 ^ (Nat.repr digits).length * 10 ^ e := by gcongr
      _ = 10 ^ ((Nat.repr digits).length + e) := by rw [zpow_add₀ (by norm_num), zpow_natCast]
      _ ≤ 10 ^ (-51 : Int) := zpow_le_zpow_right₀ (by norm_num) (by omega)
  calc (digits * 10 ^ e * Single.unitsPerOne : ℚ) < 10 ^ (-51 : Int) * 2 ^ 149 := by
        rw [hunits]
        gcongr
    _ < 1 / 2 := by norm_num

/-- What is left out as certain to be out of range, or nearest to zero, would be rounded to
the same. -/
theorem rounds_toSingle (negative : Bool) (digits : Nat) (e : Int) :
    Single.Rounds negative (digits * 10 ^ e) (toSingle negative digits e) := by
  have hratio : (digits * 10 ^ e : ℚ) =
      (digits * 10 ^ e.toNat : Nat) / (10 ^ (-e).toNat : Nat) := by
    rw [zpow_ten, Nat.cast_mul, mul_div_assoc]
  unfold toSingle
  simp only
  split_ifs with hzero hlarge hsmall
  · refine .finite 0 (Single.isNearest_zero ?_ ?_) Single.unitsLimit_pos
    · positivity
    · rw [hzero]
      norm_num
  · have hnearest := Single.isNearest_roundDiv (digits * 10 ^ e.toNat * Single.unitsPerOne)
      (10 ^ (-e).toNat) (by positivity)
    rw [Nat.cast_mul, mul_div_right_comm, ← hratio] at hnearest
    exact .infinite _ hnearest
      (hnearest.le_of_le Single.onGrid_unitsLimit (unitsLimit_le hzero hlarge))
  · exact .finite 0 (Single.isNearest_zero (by positivity) (lt_half_unit hsmall))
      Single.unitsLimit_pos
  · rw [hratio]
    exact Single.rounds_ofRatio negative _ _ (by positivity)

/-- The value of a numeral is the number it denotes, rounded correctly. -/
theorem rounds_value (n : Numeral) : Single.Rounds n.negative n.magnitude n.value :=
  rounds_toSingle n.negative _ _

end Numeral
end FrameUI
