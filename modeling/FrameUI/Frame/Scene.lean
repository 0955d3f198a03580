import FrameUI.Frame.Call
import FrameUI.Frame.Handlers
import FrameUI.Frame.Store
import FrameUI.Frame.Trace
import FrameUI.Style.Cascade

/-!
# Scenes

A frame is drawn in a scene: the device behind the backend, the widget state, the handlers,
the elements around the one being drawn, and a journal of all that has happened. A
`Draw` computation moves the scene along. A refused call stops it, unless the failure is
contained; a backend that breaks off stops the whole frame. Either way the scene stays as
it stands. Main statements: what `attempt`, `call` and `within` make of each way in which a
part of the drawing can end.
-/

namespace FrameUI.Frame

open FrameUI.Markup (Element)
open FrameUI.Style (ComputedStyle Sheet)

/-! ### The journal -/

/-- What happens in a frame. That an element is entered is noted in the journal alone, with the
ancestors and the style that its drawing is given: neither the backend nor the tracer nor the log
is told of it. -/
inductive Event where
  | traced (step : TraceStep)
  | called (call : Call) (reply : Except Fault call.Answer)
  | logged (record : Record)
  | entered (element : Element) (ancestors : List Element) (style : ComputedStyle)
  | fired (firing : Firing)

namespace Event

/-- What an event tells a tracer, with the records that it writes to the log. -/
def tell (t : Tracer) : Event → Logged Tracer
  | traced step => t.take step
  | logged r => ⟨[r], t⟩
  | _ => pure t

/-- What a journal tells a tracer, event by event. -/
def tellAll : Tracer → List Event → Logged Tracer
  | t, [] => pure t
  | t, e :: es => do
    let next ← e.tell t
    tellAll next es

theorem tellAll_append (t : Tracer) (es fs : List Event) :
    tellAll t (es ++ fs) = tellAll t es >>= fun next => tellAll next fs := by
  induction es generalizing t with
  | nil => simp [tellAll]
  | cons e es ih => simp [tellAll, ih]

end Event

/-! ### Drawing -/

/-- A frame under way. The ancestors go from the root inwards. -/
structure Scene (σ : Type) where
  device : σ
  store : Store
  handlers : Handlers
  ancestors : List Element
  journal : List Event

abbrev Draw (σ : Type) := EStateM Fault (Scene σ)

/-- What stays the same for a whole frame. -/
structure Stage (σ : Type) where
  backend : Backend σ
  config : Config
  sheet : Sheet

variable {σ α : Type}

namespace Draw

def emit (e : Event) : Draw σ Unit :=
  modify fun s => { s with journal := s.journal ++ [e] }

def log (level : Level) (source message : String) : Draw σ Unit :=
  emit (.logged ⟨level, source, message⟩)

def trace (text : String) : Draw σ Unit := emit (.traced (.line text))

def traceFailure (tag message : String) : Draw σ Unit :=
  trace s!"// Error: Failed to render {tag} - {message}"

def lift (x : Logged α) : Draw σ α := do
  modify fun s => { s with journal := s.journal ++ x.records.map .logged }
  pure x.value

/-- Runs a part of the drawing; a refused call becomes a value. -/
def attempt (body : Draw σ α) : Draw σ (Except CallError α) := fun s =>
  match body s with
  | .ok a t => .ok (.ok a) t
  | .error (.refused e) t => .ok (.error e) t
  | .error .brokenOff t => .error .brokenOff t

def rethrow : Except CallError α → Draw σ α
  | .ok a => pure a
  | .error e => throw (.refused e)

/-- Runs a part of the drawing that belongs to an element. A refused call is logged and
traced, and the drawing goes on. -/
def contain (source report : String) (e : Element) (body : Draw σ Unit) : Draw σ Unit := do
  match ← attempt body with
  | .ok _ => pure ()
  | .error err => do
    log .error source s!"{report}: {err.message}"
    traceFailure e.tag err.message

/-! ### Backend calls -/

/-- Asks the backend and notes its reply. -/
def call (backend : Backend σ) (c : Call) : Draw σ c.Answer := fun s =>
  match backend.answer c s.device with
  | .ok a d => .ok a { s with device := d, journal := s.journal ++ [.called c (.ok a)] }
  | .error f d => .error f { s with device := d, journal := s.journal ++ [.called c (.error f)] }

/-- Traces a call and issues it. -/
def issue (backend : Backend σ) (c : Call) : Draw σ c.Answer := do
  trace c.traceLine
  call backend c

/-! ### The elements around -/

/-- Runs a part of the drawing inside an element. The element is taken off again whether or
not a call was refused. -/
def within (e : Element) (body : Draw σ α) : Draw σ α := fun s =>
  match attempt body { s with ancestors := s.ancestors ++ [e] } with
  | .ok outcome t => rethrow outcome { t with ancestors := t.ancestors.dropLast }
  | .error f t => .error f t

/-- The tags around, from the root inwards, joined by slashes. -/
def path : Draw σ String := do
  let s ← get
  pure (tagPath s.ancestors)

def styleOf (sheet : Sheet) (e : Element) : Draw σ ComputedStyle := do
  let s ← get
  lift (sheet.styleOf e s.ancestors)

/-! ### Widget state and handlers -/

/-- The key under which the state of an element at this place is kept. -/
def keyOf (e : Element) : Draw σ String := do
  let s ← get
  pure (stateKey e s.ancestors)

/-- Reads the state of a widget, which is created from a default if there is none. -/
def readState (id : String) (default : WidgetValue) : Draw σ WidgetValue := do
  let s ← get
  let (value, store) := s.store.read id default
  set { s with store := store }
  pure value

def writeState (id : String) (value : WidgetValue) : Draw σ Unit :=
  modify fun s => { s with store := s.store.write id value }

/-- Runs the handler of a name. One that is missing is only logged. -/
def dispatch (name : String) : Draw σ Unit := do
  let s ← get
  match ← lift (s.handlers.dispatch name).run with
  | .ok (firing, handlers) => do
    modify fun s => { s with handlers := handlers }
    emit (.fired firing)
  | .error e => log .warn "trema::context" e.message

/-- Runs the handler that an attribute names, if the element has the attribute. -/
def notify (e : Element) (event : String) : Draw σ Unit :=
  match e.attribute? event with
  | some name => dispatch name
  | none => pure ()

/-! ### How parts end -/

theorem attempt_of_ok (body : Draw σ α) (s t : Scene σ) (a : α) (h : body s = .ok a t) :
    attempt body s = .ok (.ok a) t := by
  simp [attempt, h]

theorem attempt_of_refused (body : Draw σ α) (s t : Scene σ) (e : CallError)
    (h : body s = .error (.refused e) t) : attempt body s = .ok (.error e) t := by
  simp [attempt, h]

theorem attempt_of_brokenOff (body : Draw σ α) (s t : Scene σ)
    (h : body s = .error .brokenOff t) : attempt body s = .error .brokenOff t := by
  simp [attempt, h]

theorem call_of_ok (backend : Backend σ) (c : Call) (s : Scene σ) (a : c.Answer) (d : σ)
    (h : backend.answer c s.device = .ok a d) :
    call backend c s =
      .ok a { s with device := d, journal := s.journal ++ [.called c (.ok a)] } := by
  simp [call, h]

theorem call_of_error (backend : Backend σ) (c : Call) (s : Scene σ) (f : Fault) (d : σ)
    (h : backend.answer c s.device = .error f d) :
    call backend c s =
      .error f { s with device := d, journal := s.journal ++ [.called c (.error f)] } := by
  simp [call, h]

theorem within_of_ok (e : Element) (body : Draw σ α) (s t : Scene σ) (a : α)
    (h : body { s with ancestors := s.ancestors ++ [e] } = .ok a t) :
    within e body s = .ok a { t with ancestors := t.ancestors.dropLast } := by
  rw [within, attempt_of_ok body _ _ _ h]
  rfl

theorem within_of_refused (e : Element) (body : Draw σ α) (s t : Scene σ) (err : CallError)
    (h : body { s with ancestors := s.ancestors ++ [e] } = .error (.refused err) t) :
    within e body s = .error (.refused err) { t with ancestors := t.ancestors.dropLast } := by
  rw [within, attempt_of_refused body _ _ _ h]
  rfl

theorem within_of_brokenOff (e : Element) (body : Draw σ α) (s t : Scene σ)
    (h : body { s with ancestors := s.ancestors ++ [e] } = .error .brokenOff t) :
    within e body s = .error .brokenOff t := by
  rw [within, attempt_of_brokenOff body _ _ h]

end Draw
end FrameUI.Frame
