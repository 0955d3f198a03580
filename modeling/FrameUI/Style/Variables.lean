import FrameUI.Dict
import FrameUI.Diagnostics
import FrameUI.Text.Name

/-!
# Variables

Variables are names with replacement texts. A reference is a maximal run of letters,
digits, `_` and `-` that begins with a letter or `_` and does not follow a `#`; a run that
begins with a digit, such as `0xFF`, is a number. Substitution replaces the first reference
that names a variable and looks again, until no reference names one. As a replacement may
bring in further references, also to itself, the number of rounds is limited.
-/

namespace FrameUI.Style

abbrev Variables := Dict String

/-- The variables that are visible somewhere, and how many definitions there are. -/
structure Bindings where
  find? : String → Option String
  count : Nat

namespace Bindings

def ofTable (table : Variables) : Bindings := ⟨table.find?, table.size⟩

/-- Local variables in front of global ones. A name that both define counts twice. -/
def layered (outer inner : Variables) : Bindings :=
  ⟨fun name => (inner.find? name).or (outer.find? name), outer.size + inner.size⟩

end Bindings

/-! ### Runs -/

/-- A maximal run of name characters, or of other characters. -/
structure Run where
  isWord : Bool
  letters : List Char
deriving DecidableEq, Repr

/-- Splits a text into its runs, which are words and gaps in turn. -/
def runs : List Char → List Run
  | [] => []
  | c :: r =>
    match runs r with
    | [] => [⟨Text.isNameChar c, [c]⟩]
    | run :: more =>
      if run.isWord = Text.isNameChar c then ⟨run.isWord, c :: run.letters⟩ :: more
      else ⟨Text.isNameChar c, [c]⟩ :: run :: more

def joinRuns (rs : List Run) : List Char := rs.flatMap Run.letters

theorem joinRuns_runs (s : List Char) : joinRuns (runs s) = s := by
  induction s with
  | nil => rfl
  | cons c r ih =>
    simp only [runs]
    split
    · rename_i h
      rw [h] at ih
      simp only [joinRuns, List.flatMap_nil] at ih
      simp [joinRuns, ← ih]
    · rename_i run more h
      rw [h] at ih
      simp only [joinRuns, List.flatMap_cons] at ih
      split
      · simp [joinRuns, ← ih]
      · simp [joinRuns, ← ih]

namespace Run

/-- Whether a run is a reference, given whether a `#` stands right before it. -/
def isReference (afterHash : Bool) (r : Run) : Bool :=
  r.isWord && !afterHash && r.letters.head?.any fun c => c.isAlpha || c == '_'

def endsInHash (r : Run) : Bool := r.letters.getLast? == some '#'

end Run

def countReferences (afterHash : Bool) : List Run → Nat
  | [] => 0
  | r :: rs =>
    (if r.isReference afterHash then 1 else 0) + countReferences r.endsInHash rs

/-! ### Substitution -/

/-- The text with its first reference to a variable replaced, if there is one. -/
def expandFirst? (find? : String → Option String) (afterHash : Bool) :
    List Run → Option (List Char)
  | [] => none
  | r :: rs =>
    match if r.isReference afterHash then find? (String.ofList r.letters) else none with
    | some replacement => some (replacement.toList ++ joinRuns rs)
    | none => (expandFirst? find? r.endsInHash rs).map (r.letters ++ ·)

/-- One round of substitution, if it has anything to replace. -/
def expandOnce? (vars : Bindings) (s : List Char) : Option (List Char) :=
  expandFirst? vars.find? false (runs s)

/-- What some rounds make of a text, and whether they found an end: an end is found when a
round within the limit has nothing to replace. -/
def expandRounds (vars : Bindings) : Nat → List Char → List Char × Bool
  | 0, s => (s, false)
  | limit + 1, s =>
    match expandOnce? vars s with
    | none => (s, true)
    | some next => expandRounds vars limit next

/-- The number of rounds granted to a text: one more than there are variables, times one
more than there are references. -/
def roundLimit (vars : Bindings) (s : List Char) : Nat :=
  (vars.count + 1) * (countReferences false (runs s) + 1)

/-- The text after substitution. When the rounds run out, the text reached so far is taken
after a warning. -/
def substitute (vars : Bindings) (value : String) : Logged String :=
  if vars.count = 0 then pure value
  else
    let limit := roundLimit vars value.toList
    let (expanded, ended) := expandRounds vars limit value.toList
    if ended then pure (String.ofList expanded)
    else do
      Logged.write .warn "tss::parser::variables" <|
        s!"TSS: variable substitution for '{value}' stopped after {limit} rounds; " ++
          "check for self-referencing variables"
      pure (String.ofList expanded)

end FrameUI.Style
