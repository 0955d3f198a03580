import FrameUI.Dict
import FrameUI.Number.Numeral
import FrameUI.Style.Color
import FrameUI.Style.Property

/-!
# Style values

The value of a property after its text has been understood, and the table of values that
belongs to one element.
-/

namespace FrameUI.Style

inductive StyleValue where
  | color (value : Rgba)
  | number (value : Single)
  | text (value : String)
deriving DecidableEq, Repr

namespace StyleValue

/-- Understands a text as the kind of its property says: a colour or white, a number or
zero, an opacity held between zero and one or else one, or the text itself. -/
def ofText (property value : String) : Logged StyleValue :=
  match PropertyKind.ofName property with
  | .color => do
    let c ← Rgba.ofTextOrWhite value
    pure (.color c)
  | .number => pure (.number ((Single.ofFront? value).getD .zero))
  | .opacity =>
    pure (.number (((Single.ofFront? value).map fun x => x.clamp .zero .one).getD .one))
  | .text => pure (.text value)

def color? : StyleValue → Option Rgba
  | color c => some c
  | _ => none

def number? : StyleValue → Option Single
  | number x => some x
  | _ => none

def text? : StyleValue → Option String
  | text s => some s
  | _ => none

end StyleValue

abbrev ComputedStyle := Dict StyleValue

namespace ComputedStyle

def color? (style : ComputedStyle) (property : String) : Option Rgba :=
  (style.find? property).bind StyleValue.color?

def number? (style : ComputedStyle) (property : String) : Option Single :=
  (style.find? property).bind StyleValue.number?

def text? (style : ComputedStyle) (property : String) : Option String :=
  (style.find? property).bind StyleValue.text?

end ComputedStyle
end FrameUI.Style
