import FrameUI.Frame.Widgets
import FrameUI.Markup.Document
import FrameUI.Style.Parse

/-!
# Rendering frames

A renderer takes the markup and the stylesheet of one frame and draws it through its
backend. Markup that cannot be read is drawn as an error tree, while a rejected stylesheet
leaves the frame undrawn. Whatever the frame comes to, its trace is ended and flushed; only
a backend that breaks off leaves the frame as it stands.
-/

namespace FrameUI.Frame

open FrameUI.Markup (Element)

variable {σ : Type}

inductive FrameOutcome where
  | rendered
  | emptyMarkup
  | noBackend
  | stylesheetRejected
deriving DecidableEq, Repr

def FrameOutcome.name : FrameOutcome → String
  | rendered => "Rendered"
  | emptyMarkup => "EmptyMarkup"
  | noBackend => "NoBackend"
  | stylesheetRejected => "StylesheetRejected"

/-- What lasts from frame to frame. -/
structure Renderer (σ : Type) where
  config : Config
  store : Store
  handlers : Handlers
  backend : Option (Backend σ)
  tracer : Tracer

/-- A frame that was rendered: its status, unless the backend broke it off, the renderer
and the device after it, and its journal. -/
structure Rendering (σ : Type) where
  status : Option FrameOutcome
  renderer : Renderer σ
  device : σ
  journal : List Event

/-! ### Drawing a document -/

def rendererSource : String := "trema::renderer"

/-- Draws a document from its root. A root that fails is contained. -/
def drawDocument (stage : Stage σ) (root : Element) : Draw σ Unit := do
  let style ← Draw.styleOf stage.sheet root
  Draw.contain rendererSource s!"Failed to render {root.tag}" root
    (drawElement stage root style)

def advanceStore : Draw σ Unit := do
  let s ← get
  let store ← Draw.lift s.store.advance
  modify fun t => { t with store := store }

/-- Drops widget state that nobody has read for too long. -/
def sweepStore : Draw σ Unit := do
  let s ← get
  let store ← Draw.lift s.store.sweep
  modify fun t => { t with store := store }

/-! ### One frame -/

namespace Renderer

def ofConfig (config : Config) : Renderer σ :=
  ⟨config, .new config.graceFrames, ∅, none, .silent⟩

instance : Inhabited (Renderer σ) := ⟨ofConfig {}⟩

/-- Draws markup under a stylesheet, if both can be used. -/
def drawSources (r : Renderer σ) (backend : Backend σ) (markup stylesheet : String) :
    Draw σ FrameOutcome := do
  let root ← Draw.lift (Markup.parseOrShow r.config.validator markup)
  match ← Draw.lift (Style.parse? r.config.validator stylesheet) with
  | none => do
    Draw.log .error rendererSource "Failed to parse TSS; skipping frame"
    Draw.trace "// Error: Failed to parse TSS"
    pure .stylesheetRejected
  | some sheet => do
    advanceStore
    drawDocument ⟨backend, r.config, sheet⟩ root
    sweepStore
    pure .rendered

def noBackendMessage : String := "no backend installed; call set_backend() first"

/-- The body of a frame: nothing is drawn without a backend or from blank markup. -/
def frameBody (r : Renderer σ) (markup stylesheet : String) : Draw σ FrameOutcome :=
  match r.backend with
  | none => do
    Draw.log .error rendererSource s!"TXML/TSS render error: {noBackendMessage}"
    Draw.trace s!"// Error: {noBackendMessage}"
    pure .noBackend
  | some backend =>
    if (Text.trim markup.toList).isEmpty then do
      Draw.log .warn rendererSource "Empty TXML provided"
      pure .emptyMarkup
    else r.drawSources backend markup stylesheet

/-- One frame from the start of its trace to the flush. -/
def frame (r : Renderer σ) (markup stylesheet : String) : Draw σ FrameOutcome := do
  Draw.emit (.traced .started)
  let status ← r.frameBody markup stylesheet
  Draw.emit (.traced .ended)
  Draw.emit (.traced .flushed)
  pure status

def scene (r : Renderer σ) (device : σ) : Scene σ := ⟨device, r.store, r.handlers, [], []⟩

/-- Takes over what a frame leaves, and tells the tracer what happened. -/
def finish (r : Renderer σ) (status : Option FrameOutcome) (s : Scene σ) :
    Logged (Rendering σ) := do
  let tracer ← Event.tellAll r.tracer s.journal
  pure ⟨status, { r with store := s.store, handlers := s.handlers, tracer := tracer },
    s.device, s.journal⟩

def render (r : Renderer σ) (device : σ) (markup stylesheet : String) :
    Logged (Rendering σ) :=
  match r.frame markup stylesheet (r.scene device) with
  | .ok status s => r.finish (some status) s
  | .error _ s => r.finish none s

def trigger (r : Renderer σ) (name : String) : Checked MissingHandler (Firing × Renderer σ) :=
  ExceptT.mk do
    match ← (r.handlers.dispatch name).run with
    | .ok (firing, handlers) => pure (.ok (firing, { r with handlers := handlers }))
    | .error e => do
      Logged.write .warn rendererSource e.message
      pure (.error e)

def forgetState (r : Renderer σ) : Renderer σ := { r with store := r.store.clear }

end Renderer
end FrameUI.Frame
