/-!
# Quoted text

The form in which a call line shows a text argument: between double quotes, with the
quote, the backslash, newline, carriage return and tab written as two characters.
-/

namespace FrameUI.Text

/-- One character as it is written between the quotes. -/
def quotedChar (c : Char) : List Char :=
  if c = '\x22' then ['\\', '\x22']
  else if c = '\\' then ['\\', '\\']
  else if c = '\n' then ['\\', 'n']
  else if c = '\r' then ['\\', 'r']
  else if c = '\t' then ['\\', 't']
  else [c]

def quoted (s : String) : String :=
  String.ofList ('\x22' :: (s.toList.flatMap quotedChar ++ ['\x22']))

theorem quotedChar_no_newline (c : Char) : '\n' ∉ quotedChar c := by
  unfold quotedChar
  split
  · simp
  · split
    · simp
    · split
      · simp
      · split
        · simp
        · split
          · simp
          · rename_i h _ _
            simp [eq_comm, h]

/-- A quoted text stays on one line. -/
theorem quoted_no_newline (s : String) : '\n' ∉ (quoted s).toList := by
  simp only [quoted, String.toList_ofList, List.mem_cons, List.mem_append, List.mem_flatMap]
  rintro (h | ⟨c, _, hc⟩ | h)
  · simp at h
  · exact quotedChar_no_newline c hc
  · simp at h

end FrameUI.Text
