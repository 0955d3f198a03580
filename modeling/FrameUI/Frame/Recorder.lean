import FrameUI.Dict
import FrameUI.Frame.Call

/-!
# A recording backend

A backend without a screen. It notes every call, plays back what a script says the user
does, and refuses the calls and texts that the script names. Input that has been played
back is used up. The difference of accepted pushes and pops is kept in 64 bits.
-/

namespace FrameUI.Frame

/-- A script with the calls noted so far. -/
structure Recorder where
  calls : List String := []
  windowsOpen : Bool := true
  clicks : List String := []
  typed : Dict String := ∅
  slides : Dict Single := ∅
  toggles : List String := []
  refusedCalls : List String := []
  refusedTexts : List String := []
  colorDepth : Int64 := 0

namespace Recorder

instance : Inhabited Recorder := ⟨{}⟩

/-! ### Scripting -/

def click (r : Recorder) (label : String) : Recorder := { r with clicks := label :: r.clicks }

def enterText (r : Recorder) (label text : String) : Recorder :=
  { r with typed := r.typed.insert label text }

def slide (r : Recorder) (label : String) (value : Single) : Recorder :=
  { r with slides := r.slides.insert label value }

def toggle (r : Recorder) (label : String) : Recorder :=
  { r with toggles := label :: r.toggles }

def refuse (r : Recorder) (name : String) : Recorder :=
  { r with refusedCalls := name :: r.refusedCalls }

def refuseText (r : Recorder) (text : String) : Recorder :=
  { r with refusedTexts := text :: r.refusedTexts }

def forgetCalls (r : Recorder) : Recorder := { r with calls := [] }

/-- The number of calls that begin with a text. -/
def count (r : Recorder) (beginning : String) : Nat :=
  r.calls.countP fun call => beginning.toList.isPrefixOf call.toList

/-! ### Answering -/

/-- Notes a call, and refuses it if the script says so. -/
def note (call : Call) : EStateM Fault Recorder Unit := do
  modify fun r => { r with calls := r.calls ++ [call.recorded] }
  let r ← get
  if r.refusedCalls.contains call.name then
    throw (.refused ⟨call.name, "scripted failure"⟩)

def noteText (call : Call) (content : String) : EStateM Fault Recorder Unit := do
  note call
  let r ← get
  if r.refusedTexts.contains content then
    throw (.refused ⟨call.name, s!"cannot draw '{content}'"⟩)

/-- Answers a call. A slider breaks the frame off when its bounds are out of order. -/
def answer : (call : Call) → EStateM Fault Recorder call.Answer
  | .beginWindow name flags => do
    note (.beginWindow name flags)
    let r ← get
    pure r.windowsOpen
  | .endWindow => note .endWindow
  | .text content => noteText (.text content) content
  | .textColored color content => noteText (.textColored color content) content
  | .button label => do
    note (.button label)
    let r ← get
    set { r with clicks := r.clicks.filter (· != label) }
    pure (r.clicks.contains label)
  | .inputText label hint buffer capacity => do
    note (.inputText label hint buffer capacity)
    let r ← get
    set { r with typed := r.typed.erase label }
    match r.typed.find? label with
    | some text => pure ⟨true, String.ofList (text.toList.take (capacity - 1))⟩
    | none => pure ⟨false, buffer⟩
  | .slider label value low high => do
    note (.slider label value low high)
    let r ← get
    set { r with slides := r.slides.erase label }
    match r.slides.find? label with
    | some slid =>
      if low.le high then pure ⟨true, slid.clamp low high⟩ else throw .brokenOff
    | none => pure ⟨false, value⟩
  | .checkbox label checked => do
    note (.checkbox label checked)
    let r ← get
    set { r with toggles := r.toggles.filter (· != label) }
    if r.toggles.contains label then pure ⟨true, !checked⟩ else pure ⟨false, checked⟩
  | .sameLine offset gap => note (.sameLine offset gap)
  | .spacing => note .spacing
  | .separator => note .separator
  | .windowSize width height condition => note (.windowSize width height condition)
  | .itemWidth width => note (.itemWidth width)
  | .pushColor slot color => do
    note (.pushColor slot color)
    modify fun r => { r with colorDepth := r.colorDepth + 1 }
  | .popColors count => do
    note (.popColors count)
    modify fun r => { r with colorDepth := r.colorDepth - .ofNat count }

def backend : Backend Recorder := ⟨answer⟩

end Recorder
end FrameUI.Frame
