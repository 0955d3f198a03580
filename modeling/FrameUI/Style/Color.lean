import FrameUI.Diagnostics
import FrameUI.Number.Single
import FrameUI.Number.Numeral
import FrameUI.Text.Name

/-!
# Colours

A colour has four channels of eight bits and is written packed, as `0xRRGGBBAA`. It is read
in five forms: `0x` with eight or six hexadecimal digits, `#` with six or three, and
`rgb(r, g, b)` with decimal channels of which what exceeds 255 counts as 255. There are no
named colours. Lengths of digit runs are counted in UTF-8 bytes.
-/

namespace FrameUI.Style

structure Rgba where
  red : UInt8
  green : UInt8
  blue : UInt8
  alpha : UInt8
deriving DecidableEq, Repr

structure ColorError where
  input : String
  reason : String
deriving DecidableEq, Repr

def ColorError.message (e : ColorError) : String := s!"invalid color '{e.input}': {e.reason}"

/-! ### Hexadecimal digits -/

def hexDigit? (c : Char) : Option Nat :=
  if c.isDigit then some (c.toNat - 48)
  else if 'a' ≤ c ∧ c ≤ 'f' then some (c.toNat - 87)
  else if 'A' ≤ c ∧ c ≤ 'F' then some (c.toNat - 55)
  else none

/-- The capital digit for a number below sixteen. -/
def hexChar (n : Nat) : Char := if n < 10 then Char.ofNat (n + 48) else Char.ofNat (n + 55)

/-- The number that a text of hexadecimal digits spells, if it is one. -/
def hexNumber? (s : List Char) : Option Nat :=
  s.foldl (fun acc c => acc.bind fun n => (hexDigit? c).map fun d => 16 * n + d) (some 0)

def byteLength (s : List Char) : Nat := s.foldr (fun c bytes => c.utf8Size + bytes) 0

namespace Rgba

def rgb (r g b : UInt8) : Rgba := ⟨r, g, b, 255⟩

def white : Rgba := rgb 255 255 255
def black : Rgba := rgb 0 0 0

/-- The colour packed into a number, red in the highest byte. -/
def packed (c : Rgba) : Nat :=
  ((c.red.toNat * 256 + c.green.toNat) * 256 + c.blue.toNat) * 256 + c.alpha.toNat

/-- The colour whose packed form is the number modulo `2 ^ 32`. -/
def ofPacked (n : Nat) : Rgba :=
  ⟨.ofNat (n >>> 24), .ofNat (n >>> 16), .ofNat (n >>> 8), .ofNat n⟩

def channels (c : Rgba) : List UInt8 := [c.red, c.green, c.blue, c.alpha]

def hexByte (b : UInt8) : List Char := [hexChar (b.toNat / 16), hexChar (b.toNat % 16)]

def text (c : Rgba) : String := String.ofList ('0' :: 'x' :: c.channels.flatMap hexByte)

instance : ToString Rgba := ⟨text⟩

/-! ### Shifting -/

/-- A channel moved by `delta` and held between 0 and 255. The sum is taken in sixteen bits
and wraps around. -/
def shiftChannel (delta : Int16) (channel : UInt8) : UInt8 :=
  let moved := Int16.ofNat channel.toNat + delta
  if moved < 0 then 0 else if 255 < moved then 255 else .ofNat moved.toInt.toNat

/-- The colour with its three colour channels moved by `delta`. -/
def shifted (c : Rgba) (delta : Int16) : Rgba :=
  ⟨shiftChannel delta c.red, shiftChannel delta c.green, shiftChannel delta c.blue, c.alpha⟩

/-! ### Reading -/

/-- The hexadecimal number a text spells, or the error for one that spells none. -/
def readHex (input : String) (digits : List Char) : Except ColorError Nat :=
  match hexNumber? digits with
  | some n => .ok n
  | none => .error ⟨input, "invalid hex digit"⟩

/-- The colour whose packed form is an opaque one without its alpha byte. -/
def ofOpaque (n : Nat) : Rgba := ofPacked (n * 256 + 255)

/-- A channel of three hexadecimal digits, doubled into a byte. -/
def doubled (n : Nat) : UInt8 := .ofNat (n % 16 * 17)

def readPacked (input : String) (digits : List Char) : Except ColorError Rgba :=
  if byteLength digits = 8 then (readHex input digits).map ofPacked
  else if byteLength digits = 6 then (readHex input digits).map ofOpaque
  else .error ⟨input, "expected 6 or 8 hex digits after 0x"⟩

def readHash (input : String) (digits : List Char) : Except ColorError Rgba :=
  if byteLength digits = 3 then
    (readHex input digits).map fun n => rgb (doubled (n / 256)) (doubled (n / 16)) (doubled n)
  else if byteLength digits = 6 then (readHex input digits).map ofOpaque
  else .error ⟨input, "expected 3 or 6 hex digits after #"⟩

/-- A decimal channel: digits after an optional plus, spelling a number below `2 ^ 32`. -/
def readChannel (input : String) (s : List Char) : Except ColorError UInt8 :=
  let digits := (Text.dropLead? ['+'] s).getD s
  if !digits.isEmpty && digits.all Char.isDigit
      && decide (Numeral.natOfDigits digits < UInt32.size) then
    .ok (.ofNat (min (Numeral.natOfDigits digits) 255))
  else .error ⟨input, "rgb components must be integers"⟩

def readFunction (input : String) (s : List Char) : Except ColorError Rgba :=
  if s.getLast? = some ')' then
    match (Text.splitOn (· == ',') s.dropLast).map Text.trim with
    | [r, g, b] => do
      let red ← readChannel input r
      let green ← readChannel input g
      let blue ← readChannel input b
      pure (rgb red green blue)
    | _ => .error ⟨input, "rgb requires exactly 3 components"⟩
  else .error ⟨input, "missing ')' in rgb function"⟩

/-- Reads a colour in one of its forms. Blanks around it do not count. -/
def ofText (input : String) : Except ColorError Rgba :=
  match Text.trim input.toList with
  | '0' :: 'x' :: digits => readPacked input digits
  | '0' :: 'X' :: digits => readPacked input digits
  | '#' :: digits => readHash input digits
  | 'r' :: 'g' :: 'b' :: '(' :: rest => readFunction input rest
  | _ => .error ⟨input, "unsupported color format"⟩

/-- Reads a colour, and takes white after a warning for a text that is none. -/
def ofTextOrWhite (input : String) : Logged Rgba :=
  match ofText input with
  | .ok c => pure c
  | .error e => do
    Logged.write .warn "tss::types::color"
      s!"TSS: {e.message}; expected a hex color or variable reference"
    pure white

end Rgba

/-- The four channels scaled to the range from zero to one. -/
structure Channels where
  red : Single
  green : Single
  blue : Single
  alpha : Single
deriving DecidableEq, Repr

/-- Each channel divided by 255, rounded to the nearest number. -/
def Rgba.normalized (c : Rgba) : Channels :=
  let scale (b : UInt8) : Single := .ofRatio false b.toNat 255
  ⟨scale c.red, scale c.green, scale c.blue, scale c.alpha⟩

end FrameUI.Style
