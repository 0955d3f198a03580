/-!
# White space

The characters that separate words, by the Unicode property `White_Space`, and the
operations on text that depend on them: trimming and splitting into words. Main
statements: trimming the front leaves a text that does not begin with a blank, and it
never lengthens a text.
-/

namespace FrameUI.Text

/-- Inclusive ranges of the code points with the property `White_Space`. -/
def blankRanges : List (Nat × Nat) :=
  [(0x9, 0xD), (0x20, 0x20), (0x85, 0x85), (0xA0, 0xA0), (0x1680, 0x1680), (0x2000, 0x200A),
    (0x2028, 0x2029), (0x202F, 0x202F), (0x205F, 0x205F), (0x3000, 0x3000)]

/-- Whether a character has the property `White_Space`. -/
def isBlank (c : Char) : Bool :=
  blankRanges.any fun range => decide (range.1 ≤ c.toNat) && decide (c.toNat ≤ range.2)

def trimStart (s : List Char) : List Char := s.dropWhile isBlank

def trimEnd (s : List Char) : List Char := (s.reverse.dropWhile isBlank).reverse

def trim (s : List Char) : List Char := trimEnd (trimStart s)

/-- The parts of a text between the characters that satisfy `p`, empty parts included:
there is always one more part than there are such characters. -/
def splitOn (p : Char → Bool) : List Char → List (List Char)
  | [] => [[]]
  | c :: r =>
    if p c then [] :: splitOn p r
    else match splitOn p r with
      | [] => [[c]]
      | part :: parts => (c :: part) :: parts

/-- The maximal runs of characters that are not blank. -/
def words (s : List Char) : List (List Char) :=
  (splitOn isBlank s).filter fun part => !part.isEmpty

def trimmed (s : String) : String := String.ofList (trim s.toList)

/-! ### Lengths -/

theorem length_dropWhile_le (p : Char → Bool) (s : List Char) :
    (s.dropWhile p).length ≤ s.length :=
  (List.dropWhile_sublist p).length_le

theorem trimStart_length_le (s : List Char) : (trimStart s).length ≤ s.length :=
  length_dropWhile_le isBlank s

/-! ### The front of a trimmed text -/

@[simp] theorem trimStart_nil : trimStart [] = [] := rfl

theorem trimStart_of_blank (c : Char) (r : List Char) (h : isBlank c = true) :
    trimStart (c :: r) = trimStart r := by
  simp [trimStart, h]

theorem trimStart_of_not_blank (c : Char) (r : List Char) (h : isBlank c = false) :
    trimStart (c :: r) = c :: r := by
  simp [trimStart, h]

theorem not_blank_of_trimStart (s : List Char) (c : Char) (r : List Char)
    (h : trimStart s = c :: r) : isBlank c = false := by
  induction s with
  | nil => simp [trimStart] at h
  | cons a t ih =>
    by_cases ha : isBlank a = true
    · rw [trimStart_of_blank a t ha] at h
      exact ih h
    · rw [trimStart_of_not_blank a t (by simpa using ha)] at h
      cases h
      simpa using ha

@[simp] theorem trimStart_trimStart (s : List Char) : trimStart (trimStart s) = trimStart s := by
  cases h : trimStart s with
  | nil => rfl
  | cons c r => exact trimStart_of_not_blank c r (not_blank_of_trimStart s c r h)

end FrameUI.Text
