import FrameUI.Text.Printable

/-!
# Literals

The form in which a listing shows a name: between double quotes, with everything that is
not printable written as an escape.
-/

namespace FrameUI.Text

/-- The number of a character in small hexadecimal digits, in braces after `\u`. -/
def numericEscape (c : Char) : List Char :=
  ['\\', 'u', '{'] ++ Nat.toDigits 16 c.toNat ++ ['}']

/-- One character as it is written between the quotes. -/
def literalChar (c : Char) : List Char :=
  if c = '\x00' then ['\\', '0']
  else if c = '\t' then ['\\', 't']
  else if c = '\r' then ['\\', 'r']
  else if c = '\n' then ['\\', 'n']
  else if c = '\\' ∨ c = '\x22' then ['\\', c]
  else if isPrintable c then [c]
  else numericEscape c

def literal (s : String) : String :=
  String.ofList ('\x22' :: (s.toList.flatMap literalChar ++ ['\x22']))

end FrameUI.Text
