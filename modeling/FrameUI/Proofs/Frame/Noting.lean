import FrameUI.Frame.Widgets
import FrameUI.Proofs.Frame.Drawing

/-!
# What parts of a drawing note

Most of what happens in a frame says nothing of the user: log records, lines of the trace, and
calls without an answer that counts. `Notes` is a judgement on parts that do no more than to note
events, and a part idles if all of these are asides. There are rules for the ways in which parts
are put together, and for what a scene offers.
-/

namespace FrameUI.Frame

open FrameUI.Markup (Element)
open FrameUI.Style (ComputedStyle)

variable {σ α β : Type}

/-! ### What a journal says of the user -/

namespace Call

/-- The value that a call hands to the backend for the user to change. -/
def handed? : Call → Option WidgetValue
  | .inputText _ _ buffer _ => some (.text buffer)
  | .slider _ value _ _ => some (.float value)
  | .checkbox _ checked => some (.bool checked)
  | _ => none

/-- Whether nothing that the user does shows in the answer to a call. -/
def isAside : Call → Bool
  | .button .. | .inputText .. | .slider .. | .checkbox .. => false
  | _ => true

end Call

namespace Event

/-- The value that a backend reports as changed. -/
def reported? : Event → Option WidgetValue
  | called (.inputText ..) (.ok ⟨true, text⟩) => some (.text text)
  | called (.slider ..) (.ok ⟨true, value⟩) => some (.float value)
  | called (.checkbox ..) (.ok ⟨true, checked⟩) => some (.bool checked)
  | _ => none

def isClick : Event → Bool
  | called (.button _) (.ok true) => true
  | _ => false

def refusesPop : Event → Bool
  | called (.popColors _) (.error _) => true
  | _ => false

def firing? : Event → Option Firing
  | fired f => some f
  | _ => none

def traced? : Event → Option TraceStep
  | traced step => some step
  | _ => none

def isAside : Event → Bool
  | traced _ | logged _ => true
  | called c _ => c.isAside
  | entered .. | fired _ => false

theorem reported?_of_isAside (ev : Event) (h : ev.isAside = true) : ev.reported? = none := by
  cases ev with
  | called c reply => cases c <;> first | rfl | cases h
  | _ => rfl

theorem isClick_of_isAside (ev : Event) (h : ev.isAside = true) : ev.isClick = false := by
  cases ev with
  | called c reply => cases c <;> first | rfl | cases h
  | _ => rfl

theorem firing?_of_isAside (ev : Event) (h : ev.isAside = true) : ev.firing? = none := by
  cases ev with
  | fired f => cases h
  | _ => rfl

end Event

def firings (events : List Event) : List Firing := events.filterMap Event.firing?

def tracedSteps (events : List Event) : List TraceStep := events.filterMap Event.traced?

theorem tracedSteps_append (events more : List Event) :
    tracedSteps (events ++ more) = tracedSteps events ++ tracedSteps more :=
  List.filterMap_append

/-- Events that say nothing of the user. -/
def Asides (events : List Event) : Prop := ∀ ev ∈ events, ev.isAside = true

def PopsAccepted (events : List Event) : Prop := ∀ ev ∈ events, ev.refusesPop = false

instance : DecidablePred PopsAccepted := fun events =>
  inferInstanceAs (Decidable (∀ ev ∈ events, ev.refusesPop = false))

theorem asides_nil : Asides [] := fun _ h => absurd h List.not_mem_nil

theorem asides_append (events more : List Event) :
    Asides (events ++ more) ↔ Asides events ∧ Asides more := List.forall_mem_append

theorem asides_records (records : List Record) : Asides (records.map .logged) := by
  intro ev hev
  obtain ⟨r, _, rfl⟩ := List.mem_map.1 hev
  rfl

theorem asides_issued (c : Call) (reply : Except Fault c.Answer) (h : c.isAside = true) :
    Asides [.traced (.line c.traceLine), .called c reply] := by
  intro ev hev
  rcases List.mem_cons.1 hev with rfl | hev
  · rfl
  · rw [List.mem_singleton.1 hev]
    exact h

theorem firings_append (events more : List Event) :
    firings (events ++ more) = firings events ++ firings more := List.filterMap_append

theorem firings_of_asides (events : List Event) (h : Asides events) : firings events = [] :=
  List.filterMap_eq_nil_iff.2 fun ev hev => ev.firing?_of_isAside (h ev hev)

theorem firings_map_fired (fs : List Firing) : firings (fs.map .fired) = fs := by
  rw [firings, List.filterMap_map]
  exact List.filterMap_some

/-- Events that say nothing of the user but that some handlers have run. -/
structure Runs (events : List Event) (fs : List Firing) : Prop where
  firings : firings events = fs
  others : ∀ ev ∈ events, ev.isAside = true ∨ ∃ f, ev = .fired f

theorem Asides.runs {events : List Event} (h : Asides events) : Runs events [] :=
  ⟨firings_of_asides events h, fun ev hev => Or.inl (h ev hev)⟩

theorem Runs.append {events more : List Event} {fs gs : List Firing} (h : Runs events fs)
    (h' : Runs more gs) : Runs (events ++ more) (fs ++ gs) where
  firings := by rw [firings_append, h.firings, h'.firings]
  others := List.forall_mem_append.2 ⟨h.others, h'.others⟩

theorem runs_map_fired (fs : List Firing) : Runs (fs.map .fired) fs where
  firings := firings_map_fired fs
  others := by
    intro ev hev
    obtain ⟨f, _, rfl⟩ := List.mem_map.1 hev
    exact Or.inr ⟨f, rfl⟩

/-- The run of the handler that an element names for an event, if it is registered. -/
def Handlers.runFor (hs : Handlers) (e : Element) (event : String) : List Firing :=
  ((e.attribute? event).bind hs.table.find?).toList.map fun h => ⟨h.label, h.runs + 1⟩

/-! ### Parts that leave widgets alone -/

/-- A later scene of the same widgets, elements and handlers: some events have been noted. -/
structure Scene.Later (s t : Scene σ) (events : List Event) : Prop where
  store : t.store = s.store
  handlers : t.handlers = s.handlers
  ancestors : t.ancestors = s.ancestors
  journal : t.journal = s.journal ++ events

theorem Scene.Later.refl (s : Scene σ) : s.Later s [] := ⟨rfl, rfl, rfl, (List.append_nil _).symm⟩

theorem Scene.Later.trans {s t u : Scene σ} {events more : List Event} (h : s.Later t events)
    (h' : t.Later u more) : s.Later u (events ++ more) where
  store := h'.store.trans h.store
  handlers := h'.handlers.trans h.handlers
  ancestors := h'.ancestors.trans h.ancestors
  journal := by rw [h'.journal, h.journal, List.append_assoc]

namespace Draw

/-- In every scene a part of the drawing ends, and all it does is to note events of which, with
its outcome, a property holds. -/
def Notes (body : Draw σ α) (Q : Except CallError α → List Event → Prop) : Prop :=
  ∀ s, Ends body s fun outcome t => ∃ events, s.Later t events ∧ Q outcome events

theorem Notes.mono (body : Draw σ α) (P Q : Except CallError α → List Event → Prop)
    (h : Notes body P) (hPQ : ∀ outcome events, P outcome events → Q outcome events) :
    Notes body Q := by
  intro s
  apply Ends.mono body s _ _ (h s)
  intro outcome t hparts
  obtain ⟨events, hlater, hP⟩ := hparts
  exact ⟨events, hlater, hPQ outcome events hP⟩

theorem notes_pure (a : α) (Q : Except CallError α → List Event → Prop) (hQ : Q (.ok a) []) :
    Notes (pure a : Draw σ α) Q :=
  fun s => ends_pure a s _ ⟨[], .refl s, hQ⟩

theorem idles_refused (err : CallError) (next : α → Draw σ β) :
    Notes (rethrow (.error err) >>= next) fun _ events => Asides events :=
  fun s => Ends.of_refused _ s s err _ rfl ⟨[], .refl s, asides_nil⟩

theorem Notes.bind_ends (body : Draw σ α) (next : α → Draw σ β)
    (P : Except CallError α → List Event → Prop) (s : Scene σ)
    (Q : Except CallError β → Scene σ → Prop) (h : Notes body P)
    (hok : ∀ a t events, s.Later t events → P (.ok a) events → Ends (next a) t Q)
    (herror : ∀ e t events, s.Later t events → P (.error e) events → Q (.error e) t) :
    Ends (body >>= next) s Q := by
  apply Ends.bind body next s _ _ (h s)
  · intro a t hparts
    obtain ⟨events, hlater, hP⟩ := hparts
    exact hok a t events hlater hP
  · intro e t hparts
    obtain ⟨events, hlater, hP⟩ := hparts
    exact herror e t events hlater hP

theorem Notes.bind (body : Draw σ α) (next : α → Draw σ β)
    (P : Except CallError α → List Event → Prop) (Q : Except CallError β → List Event → Prop)
    (h : Notes body P)
    (hok : ∀ a before, P (.ok a) before →
      Notes (next a) fun outcome events => Q outcome (before ++ events))
    (herror : ∀ e events, P (.error e) events → Q (.error e) events) :
    Notes (body >>= next) Q := by
  intro s
  apply Notes.bind_ends body next P s _ h
  · intro a t before hbefore hP
    apply Ends.mono _ t _ _ (hok a before hP t)
    intro outcome u hparts
    obtain ⟨events, hlater, hQ⟩ := hparts
    exact ⟨before ++ events, hbefore.trans hlater, hQ⟩
  · intro e t events hlater hP
    exact ⟨events, hlater, herror e events hP⟩

theorem Notes.attempt (body : Draw σ α) (P : Except CallError α → List Event → Prop)
    (h : Notes body P) :
    Notes (Draw.attempt body) fun outcome events => ∃ r, outcome = .ok r ∧ P r events := by
  intro s
  apply Ends.attempt body s
  apply Ends.mono body s _ _ (h s)
  intro outcome t hparts
  obtain ⟨events, hlater, hP⟩ := hparts
  exact ⟨events, hlater, outcome, rfl, hP⟩

/-- A part whose events are all asides. -/
abbrev Idles (body : Draw σ α) : Prop := Notes body fun _ events => Asides events

theorem Idles.bind (body : Draw σ α) (next : α → Draw σ β) (h : Idles body)
    (hnext : ∀ a, Idles (next a)) : Idles (body >>= next) := by
  apply Notes.bind body next _ _ h
  · intro a before hbefore
    apply Notes.mono _ _ _ (hnext a)
    intro _ events hevents
    exact (asides_append _ _).2 ⟨hbefore, hevents⟩
  · intro _ events hevents
    exact hevents

theorem Idles.attempt (body : Draw σ α) (h : Idles body) : Idles (Draw.attempt body) := by
  apply Notes.mono _ _ _ (Notes.attempt body _ h)
  intro _ events hparts
  obtain ⟨_, _, hevents⟩ := hparts
  exact hevents

theorem idles_pure (a : α) : Idles (pure a : Draw σ α) := notes_pure a _ asides_nil

theorem idles_get : Idles (get : Draw σ (Scene σ)) :=
  fun s => Ends.of_ok _ s s s _ rfl ⟨[], .refl s, asides_nil⟩

theorem notes_emit (ev : Event) :
    Notes (emit ev : Draw σ Unit) fun outcome events => outcome = .ok () ∧ events = [ev] := by
  intro s
  refine Ends.of_ok _ s { s with journal := s.journal ++ [ev] } () _ rfl ⟨[ev], ?_, rfl, rfl⟩
  exact ⟨rfl, rfl, rfl, rfl⟩

theorem idles_emit (ev : Event) (h : ev.isAside = true) : Idles (emit ev : Draw σ Unit) := by
  apply Notes.mono _ _ _ (notes_emit ev)
  intro _ events hparts ev' hev'
  rw [hparts.2] at hev'
  rw [List.mem_singleton.1 hev']
  exact h

theorem idles_log (level : Level) (source message : String) :
    Idles (log level source message : Draw σ Unit) := idles_emit _ rfl

theorem idles_trace (text : String) : Idles (trace text : Draw σ Unit) := idles_emit _ rfl

theorem idles_lift (x : Logged α) : Idles (lift x : Draw σ α) := by
  intro s
  exact Ends.of_ok _ s { s with journal := s.journal ++ x.records.map .logged } x.value _ rfl
    ⟨x.records.map .logged, ⟨rfl, rfl, rfl, rfl⟩, asides_records _⟩

theorem idles_styleOf (sheet : Style.Sheet) (e : Element) :
    Idles (styleOf sheet e : Draw σ ComputedStyle) :=
  Idles.bind _ _ idles_get fun _ => idles_lift _

/-- Issuing a call notes its trace line and then the reply. -/
theorem notes_issue (backend : Backend σ) (c : Call) :
    Notes (issue backend c) fun outcome events =>
      events = [.traced (.line c.traceLine), .called c (replyOf outcome)] := by
  intro s
  refine ends_issue backend c s _ fun outcome hreply => ⟨_, ⟨rfl, rfl, rfl, rfl⟩, ?_⟩
  rw [hreply]

theorem idles_issue (backend : Backend σ) (c : Call) (h : c.isAside = true) :
    Idles (issue backend c) := by
  apply Notes.mono _ _ _ (notes_issue backend c)
  intro outcome events heq
  rw [heq]
  exact asides_issued c _ h

end Draw

end FrameUI.Frame
