/-!
# Positions in a text

A position is a line and a column, both counted from one. A newline ends its line, and
every other character takes one column. A place in a source text is given by the suffix
that begins there; its position is the one reached after the characters before it.
-/

namespace FrameUI.Text

/-- A line and a column, both counted from one. -/
structure Position where
  line : Nat
  column : Nat
deriving DecidableEq, Repr

namespace Position

def start : Position := ⟨1, 1⟩

def advance (p : Position) (c : Char) : Position :=
  if c = '\n' then ⟨p.line + 1, 1⟩ else ⟨p.line, p.column + 1⟩

def after (s : List Char) : Position := s.foldl advance start

/-- The position in `source` at which its suffix `rest` begins. -/
def ofSuffix (source rest : List Char) : Position :=
  after (source.take (source.length - rest.length))

@[simp] theorem after_nil : after [] = start := rfl

theorem after_append_singleton (s : List Char) (c : Char) :
    after (s ++ [c]) = (after s).advance c := by
  simp [after]

theorem ofSuffix_append (before rest : List Char) :
    ofSuffix (before ++ rest) rest = after before := by
  simp [ofSuffix]

end Position
end FrameUI.Text
