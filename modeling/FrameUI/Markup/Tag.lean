/-!
# Tags

The closed set of tags that a document may use and the one tag that every document has at
its root. Names are matched exactly, letter case included.
-/

namespace FrameUI.Markup

/-- A tag of the markup language; `unknown` stands for every other name. -/
inductive Tag where
  | app | head | body | window | text | button | inputText | sliderFloat | checkbox
  | sameLine | spacing | separator | unknown
deriving DecidableEq, Repr

/-- The name that the root of every document carries. -/
def rootName : String := "App"

namespace Tag

/-- The tags of the language in the order of a typical document. -/
def known : List Tag :=
  [app, head, body, window, text, button, inputText, sliderFloat, checkbox, sameLine,
    spacing, separator]

def name : Tag → String
  | app => "App"
  | head => "Head"
  | body => "Body"
  | window => "Window"
  | text => "Text"
  | button => "Button"
  | inputText => "InputText"
  | sliderFloat => "SliderFloat"
  | checkbox => "Checkbox"
  | sameLine => "SameLine"
  | spacing => "Spacing"
  | separator => "Separator"
  | unknown => "Unknown"

def ofName (s : String) : Tag := (known.find? fun tag => tag.name == s).getD unknown

def isKnown (tag : Tag) : Bool := decide (tag ≠ unknown)

def index? (tag : Tag) : Option Nat := known.findIdx? (· == tag)

theorem ofName_name (tag : Tag) (h : tag ∈ known) : ofName tag.name = tag := by
  revert tag
  decide

end Tag
end FrameUI.Markup
