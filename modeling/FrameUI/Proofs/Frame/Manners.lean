import FrameUI.Frame.Renderer
import FrameUI.Proofs.Frame.Ledger
import FrameUI.Proofs.Frame.Noting
import FrameUI.Proofs.Markup.Sites

/-!
# Manners of drawing

What the widgets have in common, told once for all judgements on drawing. The widgets that keep a
value differ in a few particulars (`Field`), each element is drawn in one of a few manners
(`drawWidget_eq`), and a relation between drawings holds of trees of elements as soon as it is
kept where trees are put together (`Walk.nodes`, `Walk.document`).
-/

namespace FrameUI.Frame

open FrameUI.Markup (Element Node Site)
open FrameUI.Style (ComputedStyle Rgba)

variable {σ τ α : Type}

/-! ### Values of widgets -/

/-- The kind of the widgets that keep values of a kind. -/
def WidgetValue.kind : WidgetValue → Markup.Tag
  | text _ => .inputText
  | float _ => .sliderFloat
  | bool _ => .checkbox

theorem WidgetValue.text_eq (v : WidgetValue) (default : String) (h : v.kind = .inputText) :
    text (v.text?.getD default) = v := by
  cases v with
  | text s => rfl
  | float x => cases h
  | bool b => cases h

theorem WidgetValue.float_eq (v : WidgetValue) (default : Single) (h : v.kind = .sliderFloat) :
    float (v.float?.getD default) = v := by
  cases v with
  | text s => cases h
  | float x => rfl
  | bool b => cases h

theorem WidgetValue.bool_eq (v : WidgetValue) (default : Bool) (h : v.kind = .checkbox) :
    bool (v.bool?.getD default) = v := by
  cases v with
  | text s => cases h
  | float x => cases h
  | bool b => rfl

/-- The value with which a widget begins, if it keeps one. -/
def seedOf? (e : Element) : Option WidgetValue :=
  match e.kind with
  | .inputText => some (.text (textSeed e))
  | .sliderFloat => some (.float (sliderSeed e))
  | .checkbox => some (.bool (checkboxSeed e))
  | _ => none

/-- Whether a widget reports to the host, and if so, whether it pops its colours first. -/
def popsFirst? (e : Element) : Option Bool :=
  match e.kind with
  | .inputText | .sliderFloat => some false
  | .button | .checkbox => some true
  | _ => none

/-- What a widget hands to the backend: its stored value, unless that is of another kind. -/
def Call.Hands (c : Call) (seed stored : WidgetValue) : Prop :=
  ∃ v, c.handed? = some v ∧ (stored.kind = seed.kind → v = stored)

theorem reported?_inputText {label hint buffer : String} {capacity : Nat}
    {reply : Except Fault (Change String)} {v : WidgetValue}
    (h : (Event.called (.inputText label hint buffer capacity) reply).reported? = some v) :
    v.kind = .inputText := by
  rcases reply with f | ⟨_ | _, new⟩ <;> cases h
  rfl

theorem reported?_slider {label : String} {value low high : Single}
    {reply : Except Fault (Change Single)} {v : WidgetValue}
    (h : (Event.called (.slider label value low high) reply).reported? = some v) :
    v.kind = .sliderFloat := by
  rcases reply with f | ⟨_ | _, new⟩ <;> cases h
  rfl

theorem reported?_checkbox {label : String} {checked : Bool} {reply : Except Fault (Change Bool)}
    {v : WidgetValue} (h : (Event.called (.checkbox label checked) reply).reported? = some v) :
    v.kind = .checkbox := by
  rcases reply with f | ⟨_ | _, new⟩ <;> cases h
  rfl

theorem reported?_of_error (c : Call) (f : Fault) :
    (Event.called c (.error f)).reported? = none := by
  cases c <;> rfl

/-! ### Calls in colours -/

/-- A call between the pushes and the pops of its colours, and what is done about the reply. Some
widgets pop first, and then give up if the pops or the call were refused. -/
def painted (stage : Stage σ) (colors : List (ColorSlot × Rgba)) (popsFirst : Bool) (c : Call)
    (react : Except CallError c.Answer → Draw σ Unit) : Draw σ Unit := do
  let pushed ← pushColors stage colors
  let reply ← Draw.attempt (Draw.issue stage.backend c)
  if popsFirst then
    popColors stage pushed
    let _ ← Draw.rethrow reply
    react reply
  else
    react reply
    popColors stage pushed
    let _ ← Draw.rethrow reply

/-- A change that a reply tells of is written and announced. -/
def Draw.heed (e : Element) (id : String) (c : Call) (reply : Except CallError c.Answer) :
    Draw σ Unit :=
  match (Event.called c (Draw.replyOf reply)).reported? with
  | some v => do
    Draw.writeState id v
    Draw.notify e "onChange"
  | none => pure ()

theorem Draw.heed_of_none (e : Element) (id : String) {c : Call}
    {reply : Except CallError c.Answer}
    (h : (Event.called c (Draw.replyOf reply)).reported? = none) :
    (Draw.heed e id c reply : Draw σ Unit) = pure () := by
  rw [heed, h]

theorem Draw.heed_of_some (e : Element) (id : String) {c : Call}
    {reply : Except CallError c.Answer} {v : WidgetValue}
    (h : (Event.called c (Draw.replyOf reply)).reported? = some v) :
    (Draw.heed e id c reply : Draw σ Unit) =
      (do
        Draw.writeState id v
        Draw.notify e "onChange") := by
  rw [heed, h]

/-- A click is announced. -/
def Draw.heedClick (e : Element) : Except CallError Bool → Draw σ Unit
  | .ok true => Draw.notify e "onClick"
  | _ => pure ()

theorem drawButton_eq (stage : Stage σ) (e : Element) (style : ComputedStyle) :
    drawButton stage e style = (do
      setItemWidth stage style
      painted stage (buttonColors style ++ paint .text (style.color? "text-color")) true
        (.button e.textContent) (Draw.heedClick e)) := by
  unfold drawButton painted
  refine bind_congr fun _ => bind_congr fun n => bind_congr fun reply => ?_
  rcases reply with err | _ | _ <;> rfl

/-! ### Fields -/

/-- The particulars of a widget that keeps a value: the value it begins with, whether it sets its
width, its colours and when it pops them, and the call that shows the value. -/
structure Field where
  seed : WidgetValue
  sized : Bool
  colors : List (ColorSlot × Rgba)
  popsFirst : Bool
  call : WidgetValue → Call
  plain : ∀ stored, (call stored).isPlain = true
  hands : ∀ stored, (call stored).Hands seed stored
  reports : ∀ stored reply v, (Event.called (call stored) reply).reported? = some v →
    v.kind = seed.kind

namespace Field

def setWidth (f : Field) (stage : Stage σ) (style : ComputedStyle) : Draw σ Unit :=
  if f.sized then setItemWidth stage style else pure ()

def draw (f : Field) (stage : Stage σ) (e : Element) (style : ComputedStyle) : Draw σ Unit := do
  let id ← Draw.keyOf e
  let stored ← Draw.readState id f.seed
  f.setWidth stage style
  painted stage f.colors f.popsFirst (f.call stored) (Draw.heed e id _)

variable (e : Element) (style : ComputedStyle)

def inputText (config : Config) : Field where
  seed := .text (textSeed e)
  sized := true
  colors := paint .frameBackground (inputBackground style)
  popsFirst := false
  call stored := .inputText (inputLabel e) ((e.attribute? "hint").getD "")
    (stored.text?.getD "") config.inputCapacity
  plain _ := rfl
  hands stored := ⟨_, rfl, stored.text_eq ""⟩
  reports _ _ _ := reported?_inputText

def slider : Field where
  seed := .float (sliderSeed e)
  sized := true
  colors := paint .frameBackground (inputBackground style)
  popsFirst := false
  call stored := .slider (inputLabel e) (stored.float?.getD (sliderSeed e))
    (Single.ofFrontD (e.attribute? "min") .zero) (Single.ofFrontD (e.attribute? "max") .one)
  plain _ := rfl
  hands stored := ⟨_, rfl, stored.float_eq (sliderSeed e)⟩
  reports _ _ _ := reported?_slider

def checkbox : Field where
  seed := .bool (checkboxSeed e)
  sized := false
  colors := paint .text (style.color? "text-color")
  popsFirst := true
  call stored := .checkbox (inputLabel e) (stored.bool?.getD (checkboxSeed e))
  plain _ := rfl
  hands stored := ⟨_, rfl, stored.bool_eq (checkboxSeed e)⟩
  reports _ _ _ := reported?_checkbox

end Field

section Fields

variable (stage : Stage σ) (e : Element) (style : ComputedStyle)

theorem drawInputText_eq :
    drawInputText stage e style = (Field.inputText e style stage.config).draw stage e style := by
  unfold drawInputText Field.draw painted
  refine bind_congr fun id => bind_congr fun stored => bind_congr fun _ => bind_congr fun n => ?_
  refine bind_congr fun reply => ?_
  rcases reply with err | ⟨_ | _, new⟩ <;> rfl

theorem drawSlider_eq : drawSlider stage e style = (Field.slider e style).draw stage e style := by
  unfold drawSlider Field.draw painted
  refine bind_congr fun id => bind_congr fun stored => bind_congr fun _ => bind_congr fun n => ?_
  refine bind_congr fun reply => ?_
  rcases reply with err | ⟨_ | _, new⟩ <;> rfl

theorem drawCheckbox_eq :
    drawCheckbox stage e style = (Field.checkbox e style).draw stage e style := by
  unfold drawCheckbox Field.draw painted
  refine bind_congr fun id => bind_congr fun stored => ?_
  show _ = (pure () >>= fun _ => _)
  rw [pure_bind]
  refine bind_congr fun n => bind_congr fun reply => ?_
  rcases reply with err | ⟨_ | _, new⟩ <;> rfl

end Fields

/-! ### Windows -/

/-- How a window closes: the pops and the end come whatever happened inside, and the first
failure of its own calls stops it. -/
def closeWindow (stage : Stage σ) (n : Nat) (opened : Except CallError Bool) : Draw σ Unit := do
  let popped ← Draw.attempt (popColors stage n)
  let ended ← Draw.attempt (Draw.issue stage.backend .endWindow)
  let _ ← Draw.rethrow opened
  Draw.rethrow popped
  Draw.rethrow ended

/-- What happens in a window, if it has been opened. -/
def inWindow (e : Element) (children : Draw σ Unit) : Except CallError Bool → Draw σ Unit
  | .ok true =>
    Draw.contain "trema::widgets::window" "Error rendering window children" e children
  | _ => pure ()

theorem drawWindow_eq (stage : Stage σ) (e : Element) (style : ComputedStyle)
    (children : Draw σ Unit) :
    drawWindow stage e style children = (do
      setWindowSize stage style
      let pushed ← pushColors stage
        (paint .text (style.color? "text-color") ++
          paint .windowBackground (style.color? "window-background-color"))
      let opened : Except CallError Bool ← Draw.attempt <|
        Draw.issue stage.backend
          (.beginWindow ((e.attribute? "title").getD "Window") stage.config.windowFlags)
      inWindow e children opened
      closeWindow stage pushed opened) := by
  unfold drawWindow
  refine bind_congr fun _ => bind_congr fun n => bind_congr fun opened => ?_
  rcases opened with err | _ | _ <;> rfl

/-! ### Elements -/

/-- What is noted when an element is entered. -/
def entrance (e : Element) (ancestors : List Element) (style : ComputedStyle) : List Event :=
  [.entered e ancestors style, .logged ⟨.trace, widgetSource, s!"render: {e.tag}"⟩]

def Scene.entering (s : Scene σ) (e : Element) (style : ComputedStyle) : Scene σ :=
  { s with journal := s.journal ++ entrance e s.ancestors style }

/-- An element is entered before it is drawn in its manner. -/
def Draw.entering (e : Element) (style : ComputedStyle) (body : Draw σ Unit) : Draw σ Unit := do
  let around ← get
  Draw.emit (.entered e around.ancestors style)
  Draw.log .trace widgetSource s!"render: {e.tag}"
  body

theorem Draw.entering_eq (e : Element) (style : ComputedStyle) (body : Draw σ Unit)
    (s : Scene σ) : Draw.entering e style body s = body (s.entering e style) := by
  rw [Scene.entering, entrance, List.append_cons]
  rfl

theorem Draw.Comes.entering {e : Element} {style : ComputedStyle} {body : Draw σ Unit}
    {s : Scene σ} {Q : Except Fault Unit → Scene σ → Prop}
    (h : Draw.Comes body (s.entering e style) Q) : Draw.Comes (Draw.entering e style body) s Q := by
  obtain ⟨outcome, t, hrun, hQ⟩ := h
  exact ⟨outcome, t, (Draw.entering_eq e style body s).trans hrun, hQ⟩

/-- The manner in which an element is drawn once it has been entered. -/
inductive Manner where
  | nothing
  | warning
  | inside
  | window
  | button
  | call (c : Call) (hplain : c.isPlain = true) (haside : c.isAside = true)
  | field (f : Field)

def textCall (e : Element) (style : ComputedStyle) : Call :=
  match style.color? "text-color" with
  | some color => .textColored color.normalized e.textContent
  | none => .text e.textContent

def sameLineCall (e : Element) : Call :=
  .sameLine (Single.ofFrontD (e.attribute? "offset") .zero)
    (Single.ofFrontD (e.attribute? "spacing") Single.one.negated)

theorem textCall_eq (e : Element) (style : ComputedStyle) :
    (∃ color, textCall e style = .textColored color e.textContent) ∨
      textCall e style = .text e.textContent := by
  unfold textCall
  split
  · exact .inl ⟨_, rfl⟩
  · exact .inr rfl

theorem isPlain_textCall (e : Element) (style : ComputedStyle) :
    (textCall e style).isPlain = true := by
  rcases textCall_eq e style with ⟨_, h⟩ | h <;> rw [h] <;> rfl

theorem isAside_textCall (e : Element) (style : ComputedStyle) :
    (textCall e style).isAside = true := by
  rcases textCall_eq e style with ⟨_, h⟩ | h <;> rw [h] <;> rfl

/-- A call whose answer does not count. -/
def Draw.tell (backend : Backend σ) (c : Call) : Draw σ Unit := do
  let _ ← Draw.issue backend c

def Manner.draw (stage : Stage σ) (e : Element) (style : ComputedStyle)
    (children : Draw σ Unit) : Manner → Draw σ Unit
  | nothing => pure ()
  | warning => Draw.log .warn widgetSource s!"No renderer for tag: {e.tag}"
  | inside => Draw.within e children
  | window => drawWindow stage e style (Draw.within e children)
  | button => drawButton stage e style
  | call c _ _ => Draw.tell stage.backend c
  | field f => f.draw stage e style

def manner (config : Config) (e : Element) (style : ComputedStyle) : Manner :=
  match e.kind with
  | .app | .body => .inside
  | .head => .nothing
  | .window => .window
  | .text => .call (textCall e style) (isPlain_textCall e style) (isAside_textCall e style)
  | .button => .button
  | .inputText => .field (.inputText e style config)
  | .sliderFloat => .field (.slider e style)
  | .checkbox => .field (.checkbox e style)
  | .sameLine => .call (sameLineCall e) rfl rfl
  | .spacing => .call .spacing rfl rfl
  | .separator => .call .separator rfl rfl
  | .unknown => .warning

theorem drawText_eq (stage : Stage σ) (e : Element) (style : ComputedStyle) :
    drawText stage e style = Draw.tell stage.backend (textCall e style) := by
  unfold drawText textCall
  cases style.color? "text-color" with
  | some color => exact (bind_pure _).symm
  | none => exact (bind_pure _).symm

/-- Every element is entered and then drawn in its manner. -/
theorem drawWidget_eq (stage : Stage σ) (e : Element) (style : ComputedStyle)
    (children : Draw σ Unit) :
    drawWidget stage e style children =
      Draw.entering e style ((manner stage.config e style).draw stage e style children) := by
  unfold drawWidget Draw.entering manner
  refine bind_congr fun around => bind_congr fun _ => bind_congr fun _ => ?_
  cases e.kind with
  | text => exact drawText_eq stage e style
  | inputText => exact drawInputText_eq stage e style
  | sliderFloat => exact drawSlider_eq stage e style
  | checkbox => exact drawCheckbox_eq stage e style
  | sameLine => exact (bind_pure _).symm
  | spacing => exact (bind_pure _).symm
  | separator => exact (bind_pure _).symm
  | _ => rfl

namespace Manner

def seed? : Manner → Option WidgetValue
  | field f => some f.seed
  | _ => none

def popsFirst? : Manner → Option Bool
  | button => some true
  | field f => some f.popsFirst
  | _ => none

end Manner

section

variable (config : Config) (e : Element) (style : ComputedStyle)

theorem seedOf?_eq : seedOf? e = (manner config e style).seed? := by
  unfold seedOf? manner
  cases e.kind <;> rfl

theorem popsFirst?_eq : popsFirst? e = (manner config e style).popsFirst? := by
  unfold popsFirst? manner
  cases e.kind <;> rfl

end

theorem drawRun_eq (stage : Stage σ) (run : String) :
    drawRun stage run = if (Text.trimmed run).isEmpty then pure ()
      else Draw.tell stage.backend (.text (Text.trimmed run)) := by
  unfold drawRun
  split
  · rfl
  · exact (bind_pure _).symm

/-! ### Trees -/

/-- An element that stands in a tree is drawn in its own style, and its failure stays there. -/
def drawStyled (stage : Stage σ) (source report : String) (e : Element)
    (children : Draw σ Unit) : Draw σ Unit := do
  let style ← Draw.styleOf stage.sheet e
  Draw.contain source report e (drawWidget stage e style children)

theorem drawElement_eq (stage : Stage σ) (e : Element) (style : ComputedStyle) :
    drawElement stage e style = drawWidget stage e style (drawNodes stage e.children) := by
  cases e
  rw [drawElement]

theorem drawNode_element (stage : Stage σ) (e : Element) :
    drawNode stage (.element e) = drawStyled stage widgetSource
      s!"Failed to render child element {e.tag}" e (drawNodes stage e.children) := by
  rw [drawNode, drawStyled]
  refine bind_congr fun style => ?_
  rw [drawElement_eq]

theorem drawDocument_eq (stage : Stage σ) (root : Element) :
    drawDocument stage root = drawStyled stage rendererSource s!"Failed to render {root.tag}"
      root (drawNodes stage root.children) := by
  rw [drawDocument, drawStyled]
  refine bind_congr fun style => ?_
  rw [drawElement_eq]

/-- What keeps a relation between drawings under two stages where trees are put together. The
relation may speak of the sites that are drawn, given the elements around them. A property of the
drawings under one stage is a relation that leaves the second out of account. -/
structure Walk (stage : Stage σ) (stage' : Stage τ)
    (R : (List Element → List Site) → Draw σ Unit → Draw τ Unit → Prop) : Prop where
  nothing : R (fun _ => []) (pure ()) (pure ())
  run (text : String) : R (fun _ => []) (drawRun stage text) (drawRun stage' text)
  next {sites more : List Element → List Site} {first second : Draw σ Unit}
    {first' second' : Draw τ Unit} : R sites first first' → R more second second' →
      R (fun around => sites around ++ more around) (first >>= fun _ => second)
        (first' >>= fun _ => second')
  element (source report : String) (e : Element) {children : Draw σ Unit}
    {children' : Draw τ Unit} : R (Node.sitesEach e.children) children children' →
      R e.sites (drawStyled stage source report e children)
        (drawStyled stage' source report e children')

namespace Walk

variable {stage : Stage σ} {stage' : Stage τ}
  {R : (List Element → List Site) → Draw σ Unit → Draw τ Unit → Prop}

-- The recursion is that of `drawElement`: through the children of an element, node by node.
mutual

theorem node (walk : Walk stage stage' R) :
    ∀ n : Node, R n.sites (drawNode stage n) (drawNode stage' n)
  | .text run => by
    rw [drawNode, drawNode]
    exact walk.run run
  | .element ⟨tag, attributes, children⟩ => by
    rw [drawNode_element, drawNode_element]
    exact walk.element _ _ ⟨tag, attributes, children⟩ (nodes walk children)

theorem nodes (walk : Walk stage stage' R) :
    ∀ ns : List Node, R (Node.sitesEach ns) (drawNodes stage ns) (drawNodes stage' ns)
  | [] => by
    rw [drawNodes, drawNodes]
    exact walk.nothing
  | n :: ns => by
    rw [drawNodes, drawNodes]
    exact walk.next (node walk n) (nodes walk ns)

end

theorem document (walk : Walk stage stage' R) (root : Element) :
    R root.sites (drawDocument stage root) (drawDocument stage' root) := by
  rw [drawDocument_eq, drawDocument_eq]
  exact walk.element _ _ root (walk.nodes root.children)

end Walk

end FrameUI.Frame
