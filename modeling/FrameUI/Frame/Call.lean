import FrameUI.Frame.Config
import FrameUI.Number.Shortest
import FrameUI.Style.Color
import FrameUI.Text.Quoted

/-!
# Widget calls

A frame is drawn by calls to a backend, each with its arguments and an answer of its own
type: whether a window is open, whether a button was clicked, a value and whether it
changed. A backend is any function that answers calls and carries a state along; it may
refuse a call with a message, and it may break off the whole frame. Before a call is
issued it is traced as a line of text.
-/

namespace FrameUI.Frame

open FrameUI.Style (Rgba Channels)

/-- When a setting for the next window takes effect. -/
inductive Condition where
  | always | once | firstUseEver | appearing
deriving DecidableEq, Repr

def Condition.name : Condition → String
  | always => "Always"
  | once => "Once"
  | firstUseEver => "FirstUseEver"
  | appearing => "Appearing"

/-- What a pushed colour applies to. -/
inductive ColorSlot where
  | text | button | buttonHovered | buttonActive | frameBackground | windowBackground
deriving DecidableEq, Repr

def ColorSlot.name : ColorSlot → String
  | text => "Text"
  | button => "Button"
  | buttonHovered => "ButtonHovered"
  | buttonActive => "ButtonActive"
  | frameBackground => "FrameBg"
  | windowBackground => "WindowBg"

/-- A value after a widget had it, and whether the user changed it. -/
structure Change (α : Type) where
  changed : Bool
  value : α
deriving DecidableEq, Repr

inductive Call where
  | beginWindow (name : String) (flags : WindowFlags)
  | endWindow
  | text (content : String)
  | textColored (color : Channels) (content : String)
  | button (label : String)
  | inputText (label hint buffer : String) (capacity : Nat)
  | slider (label : String) (value low high : Single)
  | checkbox (label : String) (checked : Bool)
  | sameLine (offset gap : Single)
  | spacing
  | separator
  | windowSize (width height : Single) (condition : Condition)
  | itemWidth (width : Single)
  | pushColor (slot : ColorSlot) (color : Rgba)
  | popColors (count : Nat)
deriving DecidableEq, Repr

abbrev Call.Answer : Call → Type
  | beginWindow .. => Bool
  | button .. => Bool
  | inputText .. => Change String
  | slider .. => Change Single
  | checkbox .. => Change Bool
  | _ => Unit

structure CallError where
  call : String
  detail : String
deriving DecidableEq, Repr

def CallError.message (e : CallError) : String := s!"backend call {e.call} failed: {e.detail}"

/-- How a call can fail: it is refused, or the backend breaks off the frame. -/
inductive Fault where
  | refused (error : CallError)
  | brokenOff
deriving DecidableEq, Repr

/-- A backend with states of type `σ`. -/
structure Backend (σ : Type) where
  answer : (call : Call) → EStateM Fault σ call.Answer

namespace Call

def name : Call → String
  | beginWindow .. => "begin_window"
  | endWindow => "end_window"
  | text .. => "text"
  | textColored .. => "text_colored"
  | button .. => "button"
  | inputText .. => "input_text_with_hint"
  | slider .. => "slider_float"
  | checkbox .. => "checkbox"
  | sameLine .. => "same_line"
  | spacing => "spacing"
  | separator => "separator"
  | windowSize .. => "set_next_window_size"
  | itemWidth .. => "set_next_item_width"
  | pushColor .. => "push_style_color"
  | popColors .. => "pop_style_color"

def channelsText (c : Channels) : String :=
  s!"[{c.red.text}, {c.green.text}, {c.blue.text}, {c.alpha.text}]"

def traceLine : Call → String
  | beginWindow name _ => s!"ImGui.Begin({Text.quoted name});"
  | endWindow => "ImGui.End();"
  | text content => s!"ImGui.Text({Text.quoted content});"
  | textColored color content =>
    s!"ImGui.TextColored({channelsText color}, {Text.quoted content});"
  | button label => s!"ImGui.Button({Text.quoted label});"
  | inputText label hint buffer capacity =>
    s!"ImGui.InputTextWithHint({Text.quoted label}, {Text.quoted hint}, " ++
      s!"{Text.quoted buffer}, {capacity});"
  | slider label value low high =>
    s!"ImGui.SliderFloat({Text.quoted label}, {value.text}, {low.text}, {high.text});"
  | checkbox label checked => s!"ImGui.Checkbox({Text.quoted label}, {checked});"
  | sameLine offset gap => s!"ImGui.SameLine({offset.text}, {gap.text});"
  | spacing => "ImGui.Spacing();"
  | separator => "ImGui.Separator();"
  | windowSize width height condition =>
    s!"ImGui.SetNextWindowSize([{width.text}, {height.text}], ImGui.Cond.{condition.name});"
  | itemWidth width => s!"ImGui.SetNextItemWidth({width.text});"
  | pushColor slot color => s!"ImGui.PushStyleColor(ImGui.Col.{slot.name}, {color.text});"
  | popColors count => s!"ImGui.PopStyleColor({count});"

/-- The call as a recorder notes it, with its text arguments unquoted. -/
def recorded : Call → String
  | beginWindow name _ => s!"begin_window({name})"
  | endWindow => "end_window"
  | text content => s!"text({content})"
  | textColored color content => s!"text_colored({channelsText color}, {content})"
  | button label => s!"button({label})"
  | inputText label hint buffer capacity =>
    s!"input_text_with_hint({label}, {hint}, {buffer}, {capacity})"
  | slider label value low high =>
    s!"slider_float({label}, {value.text}, {low.text}, {high.text})"
  | checkbox label checked => s!"checkbox({label}, {checked})"
  | sameLine offset gap => s!"same_line({offset.text}, {gap.text})"
  | spacing => "spacing"
  | separator => "separator"
  | windowSize width height condition =>
    s!"set_next_window_size({width.text}, {height.text}, {condition.name})"
  | itemWidth width => s!"set_next_item_width({width.text})"
  | pushColor slot color => s!"push_style_color({slot.name}, {color.text})"
  | popColors count => s!"pop_style_color({count})"

end Call
end FrameUI.Frame
