import FrameUI.Frame.Scene
import FrameUI.Number.Numeral

/-!
# Widgets

How each element of the language is drawn by calls to the backend. Colours are pushed
before the call of a widget and popped after it, and only pushes that the backend accepted
are popped. Windows begin and end as a pair whatever happens between. A change that the
backend reports is written to the state of the widget, and the handler of its event runs.
An element that fails is logged and traced, and its siblings are still drawn.
-/

namespace FrameUI.Frame

open FrameUI.Markup (Element Node)
open FrameUI.Style (ComputedStyle Rgba)

variable {σ : Type}

def widgetSource : String := "trema::widgets"

/-! ### Colours and sizes -/

/-- Pushes a colour; the answer counts the pushes that were accepted. A refused push is
logged. -/
def pushColor (stage : Stage σ) (slot : ColorSlot) (color : Rgba) : Draw σ Nat := do
  match ← Draw.attempt (Draw.issue stage.backend (.pushColor slot color)) with
  | .ok _ => pure 1
  | .error err => do
    Draw.log .error widgetSource s!"{slot.name} color styling failed: {err.message}"
    pure 0

/-- Pushes colours in order; the answer counts the pushes that were accepted. -/
def pushColors (stage : Stage σ) : List (ColorSlot × Rgba) → Draw σ Nat
  | [] => pure 0
  | (slot, color) :: rest => do
    let here ← pushColor stage slot color
    let more ← pushColors stage rest
    pure (here + more)

def popColors (stage : Stage σ) (pushed : Nat) : Draw σ Unit :=
  if pushed = 0 then pure () else Draw.issue stage.backend (.popColors pushed)

def paint (slot : ColorSlot) (color : Option Rgba) : List (ColorSlot × Rgba) :=
  color.toList.map fun c => (slot, c)

/-- The colours of a button: a base colour with its variants for a pointer above it and for
a pressed button, each shifted from the base unless it has a property of its own. -/
def buttonColors (style : ComputedStyle) : List (ColorSlot × Rgba) :=
  match style.color? "button-color" with
  | none => []
  | some base =>
    [(.button, base),
      (.buttonHovered, (style.color? "button-color-hover").getD (base.shifted 40)),
      (.buttonActive, (style.color? "button-color-active").getD (base.shifted (-50)))]

/-- The background of an input: the colour for widgets, or else the one for frames. -/
def inputBackground (style : ComputedStyle) : Option Rgba :=
  (style.color? "widget-background-color").or (style.color? "frame-background-color")

def setItemWidth (stage : Stage σ) (style : ComputedStyle) : Draw σ Unit :=
  match style.number? "width" with
  | some width => Draw.issue stage.backend (.itemWidth width)
  | none => pure ()

/-- The height of a window with a styled width: its own unless that is zero, or else the
default. -/
def windowHeight (config : Config) (style : ComputedStyle) : Single :=
  ((style.number? "height").filter fun height => !height.isZero).getD
    config.defaultWindowHeight

/-- Sets the size of the next window if its style has a width. -/
def setWindowSize (stage : Stage σ) (style : ComputedStyle) : Draw σ Unit :=
  match style.number? "width" with
  | some width =>
    Draw.issue stage.backend (.windowSize width (windowHeight stage.config style) .once)
  | none => pure ()

/-! ### Plain widgets -/

def inputLabel (e : Element) : String := (e.attribute? "label").getD ""

/-- A text, in its colour if it has one. -/
def drawText (stage : Stage σ) (e : Element) (style : ComputedStyle) : Draw σ Unit :=
  match style.color? "text-color" with
  | some color => Draw.issue stage.backend (.textColored color.normalized e.textContent)
  | none => Draw.issue stage.backend (.text e.textContent)

def drawSameLine (stage : Stage σ) (e : Element) : Draw σ Unit :=
  let offset := Single.ofFrontD (e.attribute? "offset") .zero
  let gap := Single.ofFrontD (e.attribute? "spacing") Single.one.negated
  Draw.issue stage.backend (.sameLine offset gap)

/-- A button, which runs its handler when it is clicked. -/
def drawButton (stage : Stage σ) (e : Element) (style : ComputedStyle) : Draw σ Unit := do
  setItemWidth stage style
  let pushed ← pushColors stage
    (buttonColors style ++ paint .text (style.color? "text-color"))
  let reply ← Draw.attempt (Draw.issue stage.backend (.button e.textContent))
  popColors stage pushed
  let clicked : Bool ← Draw.rethrow reply
  if clicked then Draw.notify e "onClick"

/-! ### Widgets with a state -/

def textSeed (e : Element) : String := (e.attribute? "value").getD ""

def drawInputText (stage : Stage σ) (e : Element) (style : ComputedStyle) :
    Draw σ Unit := do
  let id ← Draw.keyOf e
  let stored ← Draw.readState id (.text (textSeed e))
  setItemWidth stage style
  let pushed ← pushColors stage (paint .frameBackground (inputBackground style))
  let reply : Except CallError (Change String) ← Draw.attempt <|
    Draw.issue stage.backend (.inputText (inputLabel e) ((e.attribute? "hint").getD "")
      (stored.text?.getD "") stage.config.inputCapacity)
  match reply with
  | .ok ⟨true, text⟩ => do
    Draw.writeState id (.text text)
    Draw.notify e "onChange"
  | _ => pure ()
  popColors stage pushed
  let _ ← Draw.rethrow reply

def sliderSeed (e : Element) : Single := Single.ofFrontD (e.attribute? "value") .half

def drawSlider (stage : Stage σ) (e : Element) (style : ComputedStyle) :
    Draw σ Unit := do
  let id ← Draw.keyOf e
  let stored ← Draw.readState id (.float (sliderSeed e))
  let low := Single.ofFrontD (e.attribute? "min") .zero
  let high := Single.ofFrontD (e.attribute? "max") .one
  setItemWidth stage style
  let pushed ← pushColors stage (paint .frameBackground (inputBackground style))
  let reply : Except CallError (Change Single) ← Draw.attempt <|
    Draw.issue stage.backend
      (.slider (inputLabel e) (stored.float?.getD (sliderSeed e)) low high)
  match reply with
  | .ok ⟨true, value⟩ => do
    Draw.writeState id (.float value)
    Draw.notify e "onChange"
  | _ => pure ()
  popColors stage pushed
  let _ ← Draw.rethrow reply

def checkboxSeed (e : Element) : Bool := e.attribute? "checked" == some "true"

def drawCheckbox (stage : Stage σ) (e : Element) (style : ComputedStyle) :
    Draw σ Unit := do
  let id ← Draw.keyOf e
  let stored ← Draw.readState id (.bool (checkboxSeed e))
  let pushed ← pushColors stage (paint .text (style.color? "text-color"))
  let reply : Except CallError (Change Bool) ← Draw.attempt <|
    Draw.issue stage.backend
      (.checkbox (inputLabel e) (stored.bool?.getD (checkboxSeed e)))
  popColors stage pushed
  let change ← Draw.rethrow reply
  if change.changed then
    Draw.writeState id (.bool change.value)
    Draw.notify e "onChange"

/-! ### Windows -/

/-- A window around its children, which are drawn only if it is open. -/
def drawWindow (stage : Stage σ) (e : Element) (style : ComputedStyle)
    (children : Draw σ Unit) : Draw σ Unit := do
  setWindowSize stage style
  let pushed ← pushColors stage
    (paint .text (style.color? "text-color") ++
      paint .windowBackground (style.color? "window-background-color"))
  let opened : Except CallError Bool ← Draw.attempt <|
    Draw.issue stage.backend
      (.beginWindow ((e.attribute? "title").getD "Window") stage.config.windowFlags)
  match opened with
  | .ok true =>
    Draw.contain "trema::widgets::window" "Error rendering window children" e children
  | _ => pure ()
  let popped ← Draw.attempt (popColors stage pushed)
  let ended ← Draw.attempt (Draw.issue stage.backend .endWindow)
  let _ ← Draw.rethrow opened
  Draw.rethrow popped
  Draw.rethrow ended

/-! ### Trees -/

/-- A run of text that stands among elements, trimmed; blanks alone are not drawn. -/
def drawRun (stage : Stage σ) (run : String) : Draw σ Unit :=
  if (Text.trimmed run).isEmpty then pure ()
  else Draw.issue stage.backend (.text (Text.trimmed run))

/-- Draws one element, given how its children are drawn. -/
def drawWidget (stage : Stage σ) (e : Element) (style : ComputedStyle)
    (children : Draw σ Unit) : Draw σ Unit := do
  let around ← get
  Draw.emit (.entered e around.ancestors style)
  Draw.log .trace widgetSource s!"render: {e.tag}"
  match e.kind with
  | .app | .body => Draw.within e children
  | .head => pure ()
  | .window => drawWindow stage e style (Draw.within e children)
  | .text => drawText stage e style
  | .button => drawButton stage e style
  | .inputText => drawInputText stage e style
  | .sliderFloat => drawSlider stage e style
  | .checkbox => drawCheckbox stage e style
  | .sameLine => drawSameLine stage e
  | .spacing => Draw.issue stage.backend .spacing
  | .separator => Draw.issue stage.backend .separator
  | .unknown => Draw.log .warn widgetSource s!"No renderer for tag: {e.tag}"

mutual

def drawElement (stage : Stage σ) : Element → ComputedStyle → Draw σ Unit
  | ⟨tag, attributes, children⟩, style =>
    drawWidget stage ⟨tag, attributes, children⟩ style (drawNodes stage children)

/-- Draws one child. An element that fails is contained, and a run that fails is not. -/
def drawNode (stage : Stage σ) : Node → Draw σ Unit
  | .text run => drawRun stage run
  | .element child => do
    let style ← Draw.styleOf stage.sheet child
    Draw.contain widgetSource s!"Failed to render child element {child.tag}" child
      (drawElement stage child style)

def drawNodes (stage : Stage σ) : List Node → Draw σ Unit
  | [] => pure ()
  | n :: ns => do
    drawNode stage n
    drawNodes stage ns

end

end FrameUI.Frame
