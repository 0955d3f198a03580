import FrameUI.Proofs.Number.Rounding
import FrameUI.Proofs.Text.Numerals

/-!
# The longest numeral at the front of a text

A number is read part by part, and each part takes what it can. That this leads to the longest
numeral of all has to be shown: a part could take what a longer numeral needs for another.
It cannot, because the reader gets at least as far as any numeral that the text begins with.
Main statement: `ofFront?_eq_longest`.
-/

namespace FrameUI

open Text

namespace Numeral

/-! ### The grammar -/

structure IsDigits (ds : List Char) : Prop where
  nonempty : ds ≠ []
  digits : ∀ d ∈ ds, d.isDigit = true

/-- An optional sign, and whether it is a minus. -/
inductive SignText : Bool → List Char → Prop where
  | none : SignText false []
  | plus : SignText false ['+']
  | minus : SignText true ['-']

/-- The digits before and after a point, as `digits ('.' digits?)? | '.' digits`. -/
inductive DigitsText : List Char → List Char → List Char → Prop where
  | whole (ds : List Char) (hds : IsDigits ds) : DigitsText ds [] ds
  | point (ds fs : List Char) (hds : IsDigits ds) (hfs : ∀ f ∈ fs, f.isDigit = true) :
      DigitsText ds fs (ds ++ '.' :: fs)
  | fraction (fs : List Char) (hfs : IsDigits fs) : DigitsText [] fs ('.' :: fs)

/-- The power of ten, as `([eE] [+-]? digits)?`. -/
inductive PowerText : Int → List Char → Prop where
  | none : PowerText 0 []
  | power (letter : Char) (hletter : letter = 'e' ∨ letter = 'E') (negative : Bool)
      (sign ds : List Char) (hsign : SignText negative sign) (hds : IsDigits ds) :
      PowerText (if negative then -(natOfDigits ds : Int) else natOfDigits ds)
        (letter :: (sign ++ ds))

/-- A text is a numeral from end to end. -/
inductive Spells : Numeral → List Char → Prop where
  | parts {negative : Bool} {whole fraction : List Char} {exponent : Int}
      {sign digits power : List Char} (hsign : SignText negative sign)
      (hdigits : DigitsText whole fraction digits) (hpower : PowerText exponent power) :
      Spells ⟨negative, whole, fraction, exponent⟩ (sign ++ (digits ++ power))

/-- A numeral at the front of a text that no other numeral at the front is longer than. -/
structure LongestIn (n : Numeral) (text s : List Char) : Prop where
  spells : Spells n text
  front : text <+: s
  longest : ∀ m other, Spells m other → other <+: s → other.length ≤ text.length

/-! ### What is read is a numeral -/

theorem isDigits_digitRun {s : List Char} (h : digitRun s ≠ []) : IsDigits (digitRun s) :=
  ⟨h, fun _ => all_of_mem_takeWhile _ s _⟩

theorem digitRun_append_afterDigits (s : List Char) : digitRun s ++ afterDigits s = s :=
  List.takeWhile_append_dropWhile

theorem signText_of_readSign (s : List Char) :
    ∃ sign, s = sign ++ (readSign s).2 ∧ SignText (readSign s).1 sign := by
  unfold readSign
  split
  · exact ⟨['+'], rfl, .plus⟩
  · exact ⟨['-'], rfl, .minus⟩
  · exact ⟨[], rfl, .none⟩

theorem digitsText_of_readDigits {s whole fraction rest : List Char}
    (h : readDigits s = some (whole, fraction, rest)) :
    ∃ digits, s = digits ++ rest ∧ DigitsText whole fraction digits := by
  rw [readDigits_eq] at h
  split_ifs at h with hempty
  obtain ⟨rfl, hfraction⟩ := Prod.mk.inj (Option.some.inj h)
  have hs := digitRun_append_afterDigits s
  rw [hfraction, Bool.and_eq_true, not_and_or, List.isEmpty_iff, List.isEmpty_iff] at hempty
  unfold readFraction at hfraction
  split at hfraction
  · rename_i r hafter
    obtain ⟨rfl, rfl⟩ := Prod.mk.inj hfraction
    have hr := digitRun_append_afterDigits r
    refine ⟨digitRun s ++ '.' :: digitRun r, ?_, ?_⟩
    · rw [List.append_assoc, List.cons_append, hr, ← hafter, hs]
    · by_cases hwhole : digitRun s = []
      · rw [hwhole]
        exact .fraction _ (isDigits_digitRun (hempty.resolve_left fun hne => hne hwhole))
      · exact .point _ _ (isDigits_digitRun hwhole) (all_of_mem_takeWhile _ r)
  · obtain ⟨rfl, rfl⟩ := Prod.mk.inj hfraction
    exact ⟨digitRun s, hs.symm, .whole _ (isDigits_digitRun (hempty.resolve_right fun hne =>
      hne rfl))⟩

theorem powerText_of_readExponent (s : List Char) :
    ∃ power, s = power ++ (readExponent s).2 ∧ PowerText (readExponent s).1 power := by
  unfold readExponent
  split
  · rename_i letter r
    split_ifs with hletter
    · obtain ⟨sign, hsign, hsignText⟩ := signText_of_readSign r
      by_cases hempty : (digitRun (readSign r).2).isEmpty = true
      · simp only [if_pos hempty]
        exact ⟨[], rfl, .none⟩
      · simp only [if_neg hempty]
        refine ⟨letter :: (sign ++ digitRun (readSign r).2), ?_, ?_⟩
        · rw [List.cons_append, List.append_assoc, digitRun_append_afterDigits, ← hsign]
        · exact .power letter hletter _ _ _ hsignText
            (isDigits_digitRun (by simpa using hempty))
    · exact ⟨[], rfl, .none⟩
  · exact ⟨[], rfl, .none⟩

theorem spells_of_read? {s rest : List Char} {n : Numeral} (h : read? s = some (n, rest)) :
    ∃ text, s = text ++ rest ∧ Spells n text := by
  obtain ⟨sign, hsign, hsignText⟩ := signText_of_readSign s
  simp only [read?] at h
  split at h
  · cases h
  · rename_i whole fraction behind hdigits
    obtain ⟨digits, hbehind, hdigitsText⟩ := digitsText_of_readDigits hdigits
    obtain ⟨power, hpower, hpowerText⟩ := powerText_of_readExponent behind
    obtain ⟨rfl, rfl⟩ := Prod.mk.inj (Option.some.inj h)
    refine ⟨sign ++ (digits ++ power), ?_, .parts hsignText hdigitsText hpowerText⟩
    rw [List.append_assoc, List.append_assoc, ← hpower, ← hbehind, ← hsign]

/-! ### The reader gets as far as any numeral -/

section
variable {ds : List Char} (hds : ∀ d ∈ ds, d.isDigit = true) (rest : List Char)
include hds

theorem digitRun_digits_append : digitRun (ds ++ rest) = ds ++ digitRun rest :=
  List.takeWhile_append_of_pos hds

theorem afterDigits_digits_append : afterDigits (ds ++ rest) = afterDigits rest :=
  List.dropWhile_append_of_pos hds

theorem readFraction_point_append :
    readFraction ('.' :: (ds ++ rest)) = (ds ++ digitRun rest, afterDigits rest) := by
  rw [readFraction, digitRun_digits_append hds, afterDigits_digits_append hds]

end

theorem digitRun_point (s : List Char) : digitRun ('.' :: s) = [] := rfl

theorem afterDigits_point (s : List Char) : afterDigits ('.' :: s) = '.' :: s := rfl

theorem afterDigits_suffix (s : List Char) : afterDigits s <:+ s := List.dropWhile_suffix _

theorem readFraction_suffix (s : List Char) : (readFraction s).2 <:+ s := by
  unfold readFraction
  split
  · exact (afterDigits_suffix _).trans (List.suffix_cons _ _)
  · exact List.suffix_rfl

/-- Whether a character may stand among the digits of a numeral. -/
def isDigitOrPoint (c : Char) : Bool := c.isDigit || c == '.'

section
variable {s : List Char} (h : StopsAt isDigitOrPoint s)
include h

theorem stopsAt_isDigit_of_point : StopsAt Char.isDigit s := fun c hc =>
  (Bool.or_eq_false_iff.mp (h c hc)).1

theorem digitRun_of_stopsAt : digitRun s = [] :=
  takeWhile_of_stopsAt _ _ (stopsAt_isDigit_of_point h)

theorem afterDigits_of_stopsAt : afterDigits s = s :=
  dropWhile_of_stopsAt _ _ (stopsAt_isDigit_of_point h)

theorem readFraction_of_stopsAt : readFraction s = ([], s) :=
  readFraction_of_ne s fun r hs => by
    rw [hs] at h
    exact absurd (head_of_stopsAt _ _ _ h) (by decide)

end

/-- However the text goes on, the digits of a numeral are read, and no more than they if it goes
on with neither a digit nor a point. -/
theorem DigitsText.readDigits_append {whole fraction digits : List Char}
    (h : DigitsText whole fraction digits) (rest : List Char) :
    ∃ whole' fraction' more, readDigits (digits ++ rest) = some (whole', fraction', more) ∧
      more <:+ rest ∧
      (StopsAt isDigitOrPoint rest → whole' = whole ∧ fraction' = fraction ∧ more = rest) := by
  cases h with
  | whole _ hds =>
    refine ⟨whole ++ digitRun rest, (readFraction (afterDigits rest)).1,
      (readFraction (afterDigits rest)).2, ?_, ?_, fun hrest => ?_⟩
    · rw [readDigits_eq, digitRun_digits_append hds.digits, afterDigits_digits_append hds.digits]
      exact if_neg (by simp [hds.nonempty])
    · exact (readFraction_suffix _).trans (afterDigits_suffix _)
    · rw [digitRun_of_stopsAt hrest, afterDigits_of_stopsAt hrest, readFraction_of_stopsAt hrest,
        List.append_nil]
      exact ⟨rfl, rfl, rfl⟩
  | point _ _ hds hfs =>
    refine ⟨whole, fraction ++ digitRun rest, afterDigits rest, ?_, afterDigits_suffix _,
      fun hrest => ?_⟩
    · rw [List.append_assoc, List.cons_append, readDigits_eq, digitRun_digits_append hds.digits,
        afterDigits_digits_append hds.digits, digitRun_point, afterDigits_point,
        readFraction_point_append hfs, List.append_nil]
      exact if_neg (by simp [hds.nonempty])
    · rw [digitRun_of_stopsAt hrest, afterDigits_of_stopsAt hrest, List.append_nil]
      exact ⟨rfl, rfl, rfl⟩
  | fraction _ hfs =>
    refine ⟨[], fraction ++ digitRun rest, afterDigits rest, ?_, afterDigits_suffix _,
      fun hrest => ?_⟩
    · rw [List.cons_append, readDigits_eq, digitRun_point, afterDigits_point,
        readFraction_point_append hfs.digits]
      exact if_neg (by simp [hfs.nonempty])
    · rw [digitRun_of_stopsAt hrest, afterDigits_of_stopsAt hrest, List.append_nil]
      exact ⟨rfl, rfl, rfl⟩

theorem readExponent_suffix (s : List Char) : (readExponent s).2 <:+ s := by
  obtain ⟨power, hs, -⟩ := powerText_of_readExponent s
  exact ⟨power, hs.symm⟩

/-- Whether a character is a sign. -/
def isSign (c : Char) : Bool := c == '+' || c == '-'

theorem stopsAt_isSign_of_isDigit {d : Char} (h : d.isDigit = true) (s : List Char) :
    StopsAt isSign (d :: s) := by
  refine stopsAt_cons _ d s (Bool.or_eq_false_iff.mpr ⟨?_, ?_⟩)
  · exact beq_eq_false_iff_ne.mpr fun hd => absurd (hd ▸ h) (by decide)
  · exact beq_eq_false_iff_ne.mpr fun hd => absurd (hd ▸ h) (by decide)

theorem IsDigits.stopsAt_isSign {ds : List Char} (h : IsDigits ds) (rest : List Char) :
    StopsAt isSign (ds ++ rest) := by
  obtain ⟨d, ds', rfl⟩ := List.exists_cons_of_ne_nil h.nonempty
  exact stopsAt_isSign_of_isDigit (h.digits d List.mem_cons_self) _

theorem DigitsText.stopsAt_isSign {whole fraction digits : List Char}
    (h : DigitsText whole fraction digits) (rest : List Char) :
    StopsAt isSign (digits ++ rest) := by
  cases h with
  | whole _ hds => exact hds.stopsAt_isSign rest
  | point _ _ hds _ =>
    rw [List.append_assoc]
    exact hds.stopsAt_isSign _
  | fraction _ _ => exact stopsAt_cons _ '.' _ rfl

theorem SignText.readSign_append {negative : Bool} {sign rest : List Char}
    (h : SignText negative sign) (hrest : StopsAt isSign rest) :
    readSign (sign ++ rest) = (negative, rest) := by
  cases h with
  | plus => rfl
  | minus => rfl
  | none =>
    cases rest with
    | nil => rfl
    | cons c rest =>
      obtain ⟨hplus, hminus⟩ := Bool.or_eq_false_iff.mp (head_of_stopsAt _ _ _ hrest)
      exact readSign_of_ne c rest (beq_eq_false_iff_ne.mp hplus) (beq_eq_false_iff_ne.mp hminus)

/-- However the text goes on, the power of ten is read, and exactly it at the end of the
text. -/
theorem PowerText.readExponent_append {exponent : Int} {power : List Char}
    (h : PowerText exponent power) (rest : List Char) :
    ∃ exponent' more, readExponent (power ++ rest) = (exponent', more) ∧ more <:+ rest ∧
      (rest = [] → exponent' = exponent) := by
  cases h with
  | none =>
    refine ⟨_, _, rfl, readExponent_suffix rest, ?_⟩
    rintro rfl
    rfl
  | power letter hletter negative sign ds hsign hds =>
    have hrun := digitRun_digits_append hds.digits rest
    refine ⟨if negative then -(natOfDigits (ds ++ digitRun rest) : Int)
      else natOfDigits (ds ++ digitRun rest), afterDigits rest, ?_, afterDigits_suffix rest, ?_⟩
    · rw [List.cons_append, List.append_assoc, readExponent, if_pos hletter,
        hsign.readSign_append (hds.stopsAt_isSign rest)]
      simp only [hrun, afterDigits_digits_append hds.digits]
      exact if_neg (by simp [hds.nonempty])
    · rintro rfl
      rw [show digitRun [] = [] from rfl, List.append_nil]

theorem PowerText.stopsAt {exponent : Int} {power : List Char} (h : PowerText exponent power)
    (hpower : power ≠ []) (rest : List Char) : StopsAt isDigitOrPoint (power ++ rest) := by
  cases h with
  | none => exact absurd rfl hpower
  | power letter hletter _ _ _ _ _ =>
    apply stopsAt_cons
    rcases hletter with rfl | rfl
    · rfl
    · rfl

/-- A numeral is read from the front of a text at least as far as the text spells it, and is
read as it is when the text ends there. -/
theorem Spells.read?_append {n : Numeral} {text : List Char} (h : Spells n text)
    (rest : List Char) :
    ∃ m more, read? (text ++ rest) = some (m, more) ∧ more <:+ rest ∧ (rest = [] → m = n) := by
  obtain ⟨hsign, hdigits, hpower⟩ := h
  rename_i negative whole fraction exponent sign digits power
  have hreadSign := hsign.readSign_append (hdigits.stopsAt_isSign (power ++ rest))
  obtain ⟨whole', fraction', behind, hread, hbehind, hexact⟩ :=
    hdigits.readDigits_append (power ++ rest)
  rw [List.append_assoc, List.append_assoc]
  simp only [read?, hreadSign, hread]
  by_cases hstops : StopsAt isDigitOrPoint (power ++ rest)
  · obtain ⟨rfl, rfl, rfl⟩ := hexact hstops
    obtain ⟨exponent', more, hreadPower, hmore, hend⟩ := hpower.readExponent_append rest
    rw [hreadPower]
    exact ⟨_, more, rfl, hmore, fun hrest => by rw [hend hrest]⟩
  · -- The digits go on behind the numeral, so it has no power of ten that could be lost.
    have hnil : power = [] := by
      by_contra hne
      exact hstops (hpower.stopsAt hne rest)
    rw [hnil, List.nil_append] at hbehind hstops
    refine ⟨_, _, rfl, (readExponent_suffix behind).trans hbehind, fun hrest => ?_⟩
    rw [hrest] at hstops
    exact absurd (stopsAt_nil _) hstops

/-! ### The longest numeral -/

theorem Spells.read?_eq {n : Numeral} {text : List Char} (h : Spells n text) :
    read? text = some (n, []) := by
  obtain ⟨m, more, hread, hmore, hm⟩ := h.read?_append []
  rw [List.append_nil, hm rfl, List.suffix_nil.mp hmore] at hread
  exact hread

theorem read?_isSome_iff (s : List Char) :
    (read? s).isSome ↔ ∃ n text, Spells n text ∧ text <+: s := by
  constructor
  · intro h
    obtain ⟨⟨n, rest⟩, hread⟩ := Option.isSome_iff_exists.mp h
    obtain ⟨text, rfl, hspells⟩ := spells_of_read? hread
    exact ⟨n, text, hspells, List.prefix_append text rest⟩
  · rintro ⟨n, text, hspells, rest, rfl⟩
    obtain ⟨m, more, hread, -⟩ := hspells.read?_append rest
    rw [hread]
    rfl

/-- A numeral is read exactly when it is the longest one at the front of the text. -/
theorem read?_eq_some_iff (s rest : List Char) (n : Numeral) :
    read? s = some (n, rest) ↔ ∃ text, s = text ++ rest ∧ LongestIn n text s := by
  constructor
  · intro hread
    obtain ⟨text, rfl, hspells⟩ := spells_of_read? hread
    refine ⟨text, rfl, hspells, List.prefix_append text rest, ?_⟩
    rintro m other hother ⟨behind, hbehind⟩
    obtain ⟨m', more, hreadOther, hmore, -⟩ := hother.read?_append behind
    rw [hbehind, hread] at hreadOther
    obtain ⟨rfl, rfl⟩ := Prod.mk.inj (Option.some.inj hreadOther)
    have hlength := congrArg List.length hbehind
    have hle := hmore.length_le
    rw [List.length_append, List.length_append] at hlength
    omega
  · rintro ⟨text, rfl, hspells, -, hlongest⟩
    obtain ⟨m, more, hread, hmore, -⟩ := hspells.read?_append rest
    obtain ⟨text', htext', hspells'⟩ := spells_of_read? hread
    have hle := hlongest m text' hspells' ⟨more, htext'.symm⟩
    have hlength := congrArg List.length htext'
    rw [List.length_append, List.length_append] at hlength
    obtain rfl : more = rest := hmore.eq_of_length_le (by omega)
    obtain rfl : text' = text := (List.append_cancel_right htext').symm
    have hm := hspells.read?_eq.symm.trans hspells'.read?_eq
    obtain rfl : n = m := (Prod.mk.inj (Option.some.inj hm)).1
    exact hread

end Numeral

namespace Single

/-- A numeral is a number from end to end. -/
theorem ofString?_of_spells {n : Numeral} {text : List Char} (h : Numeral.Spells n text) :
    ofString? (String.ofList text) = some n.value := by
  rw [ofString?, String.toList_ofList, h.read?_eq]

theorem readFront?_eq_some_iff (s : List Char) (x : Single) :
    readFront? s = some x ↔ ∃ n text, Numeral.LongestIn n text (trimStart s) ∧ n.value = x := by
  rw [readFront?, Option.map_eq_some_iff]
  constructor
  · rintro ⟨⟨n, rest⟩, hread, hvalue⟩
    obtain ⟨text, -, hlongest⟩ := (Numeral.read?_eq_some_iff _ rest n).mp hread
    exact ⟨n, text, hlongest, hvalue⟩
  · rintro ⟨n, text, hlongest, hvalue⟩
    obtain ⟨rest, hrest⟩ := hlongest.front
    exact ⟨(n, rest), (Numeral.read?_eq_some_iff _ rest n).mpr ⟨text, hrest.symm, hlongest⟩, hvalue⟩

/-- The number at the front of a string is that of the longest numeral there, read on its own.
There is one exactly when some numeral stands there, and it is the number that the numeral
denotes, rounded correctly. -/
theorem ofFront?_eq_longest (s : String) :
    ((ofFront? s).isSome ↔ ∃ n text, Numeral.Spells n text ∧ text <+: trimStart s.toList) ∧
      ∀ x, ofFront? s = some x ↔ ∃ n text, Numeral.LongestIn n text (trimStart s.toList) ∧
        ofString? (String.ofList text) = some x ∧ Rounds n.negative n.magnitude x := by
  constructor
  · rw [ofFront?, readFront?, Option.isSome_map]
    exact Numeral.read?_isSome_iff _
  · intro x
    rw [ofFront?, readFront?_eq_some_iff]
    constructor
    · rintro ⟨n, text, hlongest, rfl⟩
      exact ⟨n, text, hlongest, ofString?_of_spells hlongest.spells, Numeral.rounds_value n⟩
    · rintro ⟨n, text, hlongest, hparsed, -⟩
      rw [ofString?_of_spells hlongest.spells] at hparsed
      exact ⟨n, text, hlongest, Option.some.inj hparsed⟩

example : ofFront? " 12.5e wide" = some (ofRatio false 25 2) := by decide +kernel

end Single
end FrameUI
