import FrameUI.Proofs.Frame.Noting
import Mathlib.Data.List.Basic

/-!
# Backends that answer alike

A second backend echoes a journal if it is asked the calls of the journal in order and gives the
replies that were noted there, but that it may refuse some calls to which the reply told of
nothing: ends of windows, and the calls for the elements of most kinds. What the world outside
sees of a frame are its calls and the runs of its handlers, in order, and its trace, in which
lines about errors may be added.
-/

namespace FrameUI.Frame

open FrameUI.Markup (Tag)

variable {τ α : Type}

/-! ### Calls for elements -/

namespace Call

/-- The kind of the elements for which a call is issued. -/
def widget? : Call → Option Tag
  | text .. | textColored .. => some .text
  | button .. => some .button
  | inputText .. => some .inputText
  | slider .. => some .sliderFloat
  | checkbox .. => some .checkbox
  | sameLine .. => some .sameLine
  | spacing => some .spacing
  | separator => some .separator
  | _ => none

/-- Whether an answer tells of nothing: no window open, no click and no change. -/
def isNeutral : (c : Call) → c.Answer → Bool
  | beginWindow .., opened => !opened
  | button .., clicked => !clicked
  | inputText .., change => !change.changed
  | slider .., change => !change.changed
  | checkbox .., change => !change.changed
  | endWindow, _ | text .., _ | textColored .., _ | sameLine .., _ | spacing, _ | separator, _
  | windowSize .., _ | itemWidth .., _ | pushColor .., _ | popColors .., _ => true

instance (c : Call) : DecidableEq c.Answer :=
  match c with
  | beginWindow .. | button .. => inferInstanceAs (DecidableEq Bool)
  | inputText .. => inferInstanceAs (DecidableEq (Change String))
  | slider .. => inferInstanceAs (DecidableEq (Change Single))
  | checkbox .. => inferInstanceAs (DecidableEq (Change Bool))
  | endWindow | text .. | textColored .. | sameLine .. | spacing | separator
  | windowSize .. | itemWidth .. | pushColor .. | popColors .. => inferInstanceAs (DecidableEq Unit)

end Call

/-- The kind of the element that has been entered and whose widget is still to be called. -/
def Event.due (kind? : Option Tag) : Event → Option Tag
  | entered e _ _ => some e.kind
  | called c _ => if c.widget?.isSome then none else kind?
  | _ => kind?

def dueAfter (kind? : Option Tag) (events : List Event) : Option Tag := events.foldl Event.due kind?

theorem dueAfter_append (kind? : Option Tag) (events more : List Event) :
    dueAfter kind? (events ++ more) = dueAfter (dueAfter kind? events) more := List.foldl_append

/-- Whether a call ends a window or is the one for the element that has just been entered. -/
def Excusable (kind? : Option Tag) (c : Call) : Prop :=
  c = .endWindow ∨ c.widget?.isSome = true ∧ c.widget? = kind?

instance (kind? : Option Tag) (c : Call) : Decidable (Excusable kind? c) :=
  inferInstanceAs (Decidable (_ ∨ _))

/-! ### A second backend -/

def isRefusal : Except Fault α → Bool
  | .error (.refused _) => true
  | _ => false

def Call.isNeutralReply (c : Call) : Except Fault c.Answer → Bool
  | .ok a => c.isNeutral a
  | .error _ => false

namespace Backend

/-- The device of a backend that is asked the calls of a journal. -/
def hear (b : Backend τ) (device : τ) : Event → τ
  | .called c _ => b.after c device
  | _ => device

def hearAll (b : Backend τ) (device : τ) (events : List Event) : τ := events.foldl b.hear device

/-- Whether a backend gives the reply that was noted, or refuses an excusable call to which the
reply was neutral. -/
def Repeats (b : Backend τ) (device : τ) (kind? : Option Tag) : Event → Prop
  | .called c noted =>
    b.reply c device = noted ∨
      Excusable kind? c ∧ c.isNeutralReply noted = true ∧ isRefusal (b.reply c device) = true
  | _ => True

/-- A backend that is asked the calls of a journal in order gives the replies that were noted, but
for refusals of excusable calls with neutral replies. -/
inductive Echoes (b : Backend τ) : τ → Option Tag → List Event → Prop
  | nil (device : τ) (kind? : Option Tag) : Echoes b device kind? []
  | cons (device : τ) (kind? : Option Tag) (ev : Event) (events : List Event) :
      b.Repeats device kind? ev → Echoes b (b.hear device ev) (ev.due kind?) events →
        Echoes b device kind? (ev :: events)

theorem echoes_cons (b : Backend τ) (device : τ) (kind? : Option Tag) (ev : Event)
    (events : List Event) :
    b.Echoes device kind? (ev :: events) ↔
      b.Repeats device kind? ev ∧ b.Echoes (b.hear device ev) (ev.due kind?) events := by
  constructor
  · rintro (_ | ⟨_, _, _, _, hrepeats, hechoes⟩)
    exact ⟨hrepeats, hechoes⟩
  · rintro ⟨hrepeats, hechoes⟩
    exact .cons device kind? ev events hrepeats hechoes

instance (b : Backend τ) (device : τ) (kind? : Option Tag) :
    (ev : Event) → Decidable (b.Repeats device kind? ev)
  | .called _ _ => inferInstanceAs (Decidable (_ ∨ _))
  | .traced _ | .logged _ | .entered .. | .fired _ => inferInstanceAs (Decidable True)

def decideEchoes (b : Backend τ) :
    (device : τ) → (kind? : Option Tag) → (events : List Event) →
      Decidable (b.Echoes device kind? events)
  | device, kind?, [] => isTrue (.nil device kind?)
  | device, kind?, ev :: events =>
    have := decideEchoes b (b.hear device ev) (ev.due kind?) events
    decidable_of_iff _ (echoes_cons b device kind? ev events).symm

instance (b : Backend τ) (device : τ) (kind? : Option Tag) (events : List Event) :
    Decidable (b.Echoes device kind? events) := b.decideEchoes device kind? events

theorem echoes_append (b : Backend τ) (device : τ) (kind? : Option Tag)
    (events more : List Event) :
    b.Echoes device kind? (events ++ more) ↔
      b.Echoes device kind? events ∧
        b.Echoes (b.hearAll device events) (dueAfter kind? events) more := by
  induction events generalizing device kind? with
  | nil => exact (and_iff_right (.nil device kind?)).symm
  | cons ev events ih =>
    rw [List.cons_append, echoes_cons, echoes_cons, ih, and_assoc]
    rfl

end Backend

/-! ### What is seen of a frame -/

/-- What a frame does to the world outside: a call is issued, or a handler has run. -/
inductive Deed where
  | issued (call : Call)
  | ran (firing : Firing)
deriving DecidableEq

namespace Event

def deed? : Event → Option Deed
  | called c _ => some (.issued c)
  | fired f => some (.ran f)
  | _ => none

/-- Whether an event is neither a call nor the entering of an element. -/
def isPassive : Event → Bool
  | called .. | entered .. => false
  | _ => true

end Event

def deeds (events : List Event) : List Deed := events.filterMap Event.deed?

theorem deeds_append (events more : List Event) :
    deeds (events ++ more) = deeds events ++ deeds more := List.filterMap_append

theorem hearAll_of_passive (b : Backend τ) (device : τ) (events : List Event)
    (h : ∀ ev ∈ events, ev.isPassive = true) : b.hearAll device events = device := by
  induction events with
  | nil => rfl
  | cons ev events ih =>
    obtain ⟨hev, hevents⟩ := List.forall_mem_cons.1 h
    cases ev with
    | called c reply => cases hev
    | entered e ancestors style => cases hev
    | _ => exact ih hevents

theorem dueAfter_of_passive (kind? : Option Tag) (events : List Event)
    (h : ∀ ev ∈ events, ev.isPassive = true) : dueAfter kind? events = kind? := by
  induction events with
  | nil => rfl
  | cons ev events ih =>
    obtain ⟨hev, hevents⟩ := List.forall_mem_cons.1 h
    cases ev with
    | called c reply => cases hev
    | entered e ancestors style => cases hev
    | _ => exact ih hevents

theorem isPassive_records (records : List Record) :
    ∀ ev ∈ records.map Event.logged, ev.isPassive = true := by
  intro ev hev
  obtain ⟨r, _, rfl⟩ := List.mem_map.1 hev
  rfl

/-- The beginning of a line of the trace that tells of an error. -/
def errorMark : String := "// Error:"

theorem isPrefix_traceFailure (tag message : String) :
    errorMark.toList <+: s!"// Error: Failed to render {tag} - {message}".toList := by
  have hfront : "// Error: Failed to render ".toList =
      errorMark.toList ++ " Failed to render ".toList := by decide
  change errorMark.toList <+: ("// Error: Failed to render " ++ tag ++ " - " ++ message).toList
  rw [String.toList_append, String.toList_append, String.toList_append, hfront,
    List.append_assoc, List.append_assoc, List.append_assoc]
  exact List.prefix_append _ _

/-- The second trace is the first with lines added that tell of errors. -/
inductive ErrorsAdded : List TraceStep → List TraceStep → Prop
  | nil : ErrorsAdded [] []
  | keep (step : TraceStep) (steps steps' : List TraceStep) :
      ErrorsAdded steps steps' → ErrorsAdded (step :: steps) (step :: steps')
  | add (text : String) (steps steps' : List TraceStep) :
      errorMark.toList <+: text.toList → ErrorsAdded steps steps' →
        ErrorsAdded steps (.line text :: steps')

theorem ErrorsAdded.refl (steps : List TraceStep) : ErrorsAdded steps steps := by
  induction steps with
  | nil => exact .nil
  | cons step steps ih => exact .keep step steps steps ih

theorem ErrorsAdded.append {steps steps' more more' : List TraceStep}
    (h : ErrorsAdded steps steps') (hmore : ErrorsAdded more more') :
    ErrorsAdded (steps ++ more) (steps' ++ more') := by
  induction h with
  | nil => exact hmore
  | keep step steps steps' _ ih => exact .keep step _ _ ih
  | add text steps steps' hmark _ ih => exact .add text _ _ hmark ih

end FrameUI.Frame
