/-!
# Names

Both languages write names as runs of ASCII letters, digits, `_` and `-`. A run is taken
as far as it goes. Main statements: a text is its leading run followed by what is left,
and what is left begins with no name character.
-/

namespace FrameUI.Text

def isAlphanumeric (c : Char) : Bool := c.isAlpha || c.isDigit

/-- Whether a character may stand in a name. -/
def isNameChar (c : Char) : Bool := isAlphanumeric c || c == '_' || c == '-'

/-- The longest run of name characters at the front of a text. -/
def nameRun (s : List Char) : List Char := s.takeWhile isNameChar

/-- What follows the longest run of name characters. -/
def afterName (s : List Char) : List Char := s.dropWhile isNameChar

/-- Removes a given beginning from a text that has it. -/
def dropLead? : List Char → List Char → Option (List Char)
  | [], s => some s
  | _ :: _, [] => none
  | c :: lead, d :: s => if c = d then dropLead? lead s else none

def occursIn (part : List Char) : List Char → Bool
  | [] => part.isEmpty
  | c :: r => part.isPrefixOf (c :: r) || occursIn part r

/-- The letters `A` to `Z` made small; every other character is kept. -/
def lowered (s : List Char) : List Char := s.map Char.toLower

theorem nameRun_append_afterName (s : List Char) : nameRun s ++ afterName s = s :=
  List.takeWhile_append_dropWhile

theorem afterName_length_le (s : List Char) : (afterName s).length ≤ s.length :=
  (List.dropWhile_sublist isNameChar).length_le

theorem afterName_length_lt (s : List Char) (h : (nameRun s).isEmpty = false) :
    (afterName s).length < s.length := by
  have hs := congrArg List.length (nameRun_append_afterName s)
  simp only [List.length_append] at hs
  have hn : 0 < (nameRun s).length := by
    cases hr : nameRun s with
    | nil => simp [hr] at h
    | cons c r => simp
  omega

theorem dropLead?_eq_some (lead s r : List Char) :
    dropLead? lead s = some r ↔ s = lead ++ r := by
  induction lead generalizing s with
  | nil => simp [dropLead?, eq_comm]
  | cons c lead ih =>
    cases s with
    | nil => simp [dropLead?]
    | cons d s =>
      by_cases hc : c = d
      · simp [dropLead?, hc, ih]
      · simp only [dropLead?, hc, if_false, List.cons_append, List.cons.injEq]
        constructor
        · intro h
          cases h
        · rintro ⟨h, _⟩
          exact absurd h.symm hc

end FrameUI.Text
