import FrameUI.Proofs.Frame.Ledger
import FrameUI.Proofs.Frame.Noting

/-!
# Steady and still parts

Two kinds of parts of a drawing leave device and widgets alone: a steady part may comment in the
trace, and a still one gives its result without. Handlers run in still parts.
-/

namespace FrameUI.Frame

open FrameUI.Markup (Element)
open FrameUI.Style (ComputedStyle Sheet)

variable {σ α β : Type}

/-! ### Parts that do not ask the backend -/

/-- What a part of the drawing comes to that does not ask the backend. -/
structure Effect (α : Type) where
  value : α
  store : Store
  handlers : Handlers
  events : List Event

def Scene.affected (s : Scene σ) (effect : Effect α) : Scene σ :=
  { s with store := effect.store, handlers := effect.handlers,
           journal := s.journal ++ effect.events }

/-- What comes of looking for the handler of a name. -/
def dispatchEffect (name : String) (store : Store) (handlers : Handlers) : Effect Unit :=
  let ran := (handlers.dispatch name).run
  let noted := ran.records.map Event.logged
  match ran.value with
  | .ok (firing, handlers) => ⟨(), store, handlers, noted ++ [.fired firing]⟩
  | .error e => ⟨(), store, handlers, noted ++ [.logged ⟨.warn, "trema::context", e.message⟩]⟩

namespace Draw

theorem dispatch_eq (name : String) (s : Scene σ) :
    dispatch name s = .ok () (s.affected (dispatchEffect name s.store s.handlers)) := by
  have hlooked : dispatch name s = (do
      match ← lift (s.handlers.dispatch name).run with
      | .ok (firing, handlers) => do
        modify fun s => { s with handlers := handlers }
        emit (.fired firing)
      | .error e => log .warn "trema::context" e.message : Draw σ Unit) s := rfl
  rw [hlooked, dispatchEffect]
  generalize (s.handlers.dispatch name).run = ran
  obtain ⟨records, value⟩ := ran
  cases value with
  | ok fired =>
    rw [Scene.affected, ← List.append_assoc]
    rfl
  | error e =>
    rw [Scene.affected, ← List.append_assoc]
    rfl

end Draw

/-! ### Steady and still parts -/

/-- Whether an event is neither a call nor one of the steps that frame a trace. -/
def Event.isIncidental : Event → Bool
  | called .. | traced .started | traced .ended | traced .flushed => false
  | _ => true

def Incidental (events : List Event) : Prop := ∀ ev ∈ events, ev.isIncidental = true

theorem incidental_nil : Incidental [] := fun _ h => absurd h List.not_mem_nil

theorem incidental_append (events more : List Event) :
    Incidental (events ++ more) ↔ Incidental events ∧ Incidental more := List.forall_mem_append

theorem incidental_records (records : List Record) : Incidental (records.map .logged) := by
  intro ev hev
  obtain ⟨r, _, rfl⟩ := List.mem_map.1 hev
  rfl

theorem issued_of_incidental (events : List Event) (h : Incidental events) :
    issued events = [] := by
  apply List.filterMap_eq_nil_iff.2
  intro ev hev
  have hincidental := h ev hev
  cases ev with
  | called c reply => cases hincidental
  | _ => rfl

theorem exists_lines_of_incidental (events : List Event) (h : Incidental events) :
    ∃ lines : List String, tracedSteps events = lines.map .line := by
  induction events with
  | nil => exact ⟨[], rfl⟩
  | cons ev events ih =>
    obtain ⟨hev, hevents⟩ := List.forall_mem_cons.1 h
    obtain ⟨lines, hlines⟩ := ih hevents
    cases ev with
    | traced step =>
      cases step with
      | line text => exact ⟨text :: lines, congrArg (TraceStep.line text :: ·) hlines⟩
      | _ => cases hev
    | called c reply => cases hev
    | _ => exact ⟨lines, hlines⟩

/-- A later scene of the same device and widgets, where only incidental events have been noted. -/
structure Scene.Onward (s t : Scene σ) : Prop where
  device : t.device = s.device
  store : t.store = s.store
  ancestors : t.ancestors = s.ancestors
  journal : ∃ events, t.journal = s.journal ++ events ∧ Incidental events

theorem Scene.Onward.refl (s : Scene σ) : s.Onward s :=
  ⟨rfl, rfl, rfl, [], (List.append_nil _).symm, incidental_nil⟩

namespace Draw

/-- A part that goes onward whatever the scene, and comes to a result or a refusal that depends on
the elements around alone. -/
def Steady (body : Draw σ α) : Prop :=
  ∃ outcome : List Element → Except CallError α, ∀ s,
    ∃ t, body s = ending (replyOf (outcome s.ancestors)) t ∧ s.Onward t

theorem steady_refused (err : CallError) (next : α → Draw σ β) :
    Steady (rethrow (.error err) >>= next) :=
  ⟨fun _ => .error err, fun s => ⟨s, rfl, .refl s⟩⟩

theorem steady_traceFailure (tag message : String) :
    Steady (traceFailure tag message : Draw σ Unit) := by
  refine ⟨fun _ => .ok (), fun s => ⟨_, rfl, rfl, rfl, rfl, [.traced (.line _)], rfl, ?_⟩⟩
  exact List.forall_mem_singleton.2 rfl

/-- A part that goes onward whatever the scene, adds nothing to the trace, and gives a result that
depends on the elements around alone. -/
def Still (body : Draw σ α) : Prop :=
  ∃ value : List Element → α, ∀ s, ∃ t, body s = .ok (value s.ancestors) t ∧ s.Onward t ∧
    tracedSteps t.journal = tracedSteps s.journal

theorem Still.steady {body : Draw σ α} (h : Still body) : Steady body := by
  obtain ⟨value, hstill⟩ := h
  refine ⟨fun ancestors => .ok (value ancestors), fun s => ?_⟩
  obtain ⟨t, hrun, honward, _⟩ := hstill s
  exact ⟨t, hrun, honward⟩

theorem still_pure (a : α) : Still (pure a : Draw σ α) :=
  ⟨fun _ => a, fun s => ⟨s, rfl, .refl s, rfl⟩⟩

theorem tracedSteps_records (journal : List Event) (records : List Record) :
    tracedSteps (journal ++ records.map .logged) = tracedSteps journal := by
  have hnone : tracedSteps (records.map .logged) = [] := by
    apply List.filterMap_eq_nil_iff.2
    intro ev hev
    obtain ⟨r, _, rfl⟩ := List.mem_map.1 hev
    rfl
  rw [tracedSteps_append, hnone, List.append_nil]

theorem tracedSteps_concat_of_none (journal : List Event) (ev : Event) (h : ev.traced? = none) :
    tracedSteps (journal ++ [ev]) = tracedSteps journal := by
  rw [tracedSteps_append]
  simp [tracedSteps, h]

theorem still_log (level : Level) (source message : String) :
    Still (log level source message : Draw σ Unit) := by
  refine ⟨fun _ => (), fun s => ⟨_, rfl, ⟨rfl, rfl, rfl, [.logged _], rfl, ?_⟩, ?_⟩⟩
  · exact List.forall_mem_singleton.2 rfl
  · exact tracedSteps_concat_of_none _ _ rfl

theorem still_entering (e : Element) (style : ComputedStyle) :
    Still (get >>= fun around => emit (.entered e around.ancestors style) : Draw σ Unit) := by
  refine ⟨fun _ => (), fun s => ⟨{ s with journal := s.journal ++
    [.entered e s.ancestors style] }, rfl, ⟨rfl, rfl, rfl, _, rfl, ?_⟩, ?_⟩⟩
  · exact List.forall_mem_singleton.2 rfl
  · exact tracedSteps_concat_of_none _ _ rfl

theorem still_styleOf (sheet : Sheet) (e : Element) :
    Still (styleOf sheet e : Draw σ ComputedStyle) :=
  ⟨fun ancestors => (sheet.styleOf e ancestors).value, fun _ =>
    ⟨_, rfl, ⟨rfl, rfl, rfl, _, rfl, incidental_records _⟩, tracedSteps_records _ _⟩⟩

theorem still_keyOf (e : Element) : Still (keyOf e : Draw σ String) :=
  ⟨fun ancestors => stateKey e ancestors, fun s => ⟨s, rfl, .refl s, rfl⟩⟩

theorem still_dispatch (name : String) : Still (dispatch name : Draw σ Unit) := by
  refine ⟨fun _ => (), fun s => ⟨_, dispatch_eq name s, ⟨rfl, ?_, rfl, _, rfl, ?_⟩, ?_⟩⟩
  · rw [Scene.affected, dispatchEffect]
    cases (s.handlers.dispatch name).run.value with
    | ok fired => rfl
    | error e => rfl
  · rw [dispatchEffect]
    cases (s.handlers.dispatch name).run.value with
    | ok fired =>
      exact (incidental_append _ _).2 ⟨incidental_records _, List.forall_mem_singleton.2 rfl⟩
    | error e =>
      exact (incidental_append _ _).2 ⟨incidental_records _, List.forall_mem_singleton.2 rfl⟩
  · rw [Scene.affected, dispatchEffect]
    cases (s.handlers.dispatch name).run.value with
    | ok fired =>
      exact (congrArg tracedSteps (List.append_assoc _ _ _).symm).trans
        ((tracedSteps_concat_of_none _ _ rfl).trans (tracedSteps_records _ _))
    | error e =>
      exact (congrArg tracedSteps (List.append_assoc _ _ _).symm).trans
        ((tracedSteps_concat_of_none _ _ rfl).trans (tracedSteps_records _ _))

theorem still_notify (e : Element) (event : String) :
    Still (notify e event : Draw σ Unit) := by
  unfold notify
  split
  · exact still_dispatch _
  · exact still_pure ()

end Draw
end FrameUI.Frame
