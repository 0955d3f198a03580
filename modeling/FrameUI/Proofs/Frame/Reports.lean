import FrameUI.Proofs.Frame.Brackets
import FrameUI.Proofs.Frame.Visiting

/-!
# What becomes of reports

A report of a change is heeded if the new value is stored and the handler for changes has run
once, and a click if the handler for clicks has. Main statement: a widget heeds what the backend
reports whichever of its calls are refused, but for one thing: buttons and checkboxes pop their
colours before they heed a report, and a refused pop loses it.
-/

namespace FrameUI.Frame

open FrameUI.Markup (Element)
open FrameUI.Style (ComputedStyle)

variable {σ : Type}

/-! ### Reports of single events -/

/-- Nothing among some events is a report. -/
structure Unreported (events : List Event) : Prop where
  changes : ∀ ev ∈ events, ev.reported? = none
  clicks : ∀ ev ∈ events, ev.isClick = false

theorem unreported_append (events more : List Event) (h : Unreported events)
    (h' : Unreported more) : Unreported (events ++ more) :=
  ⟨List.forall_mem_append.2 ⟨h.changes, h'.changes⟩,
    List.forall_mem_append.2 ⟨h.clicks, h'.clicks⟩⟩

theorem Runs.unreported {events : List Event} {fs : List Firing} (h : Runs events fs) :
    Unreported events := by
  constructor
  · intro ev hev
    rcases h.others ev hev with haside | ⟨f, rfl⟩
    · exact ev.reported?_of_isAside haside
    · rfl
  · intro ev hev
    rcases h.others ev hev with haside | ⟨f, rfl⟩
    · exact ev.isClick_of_isAside haside
    · rfl

theorem isClick_of_hands (c : Call) (reply : Except Fault c.Answer) (seed stored : WidgetValue)
    (h : c.Hands seed stored) : (Event.called c reply).isClick = false := by
  obtain ⟨v, hv, _⟩ := h
  cases c with
  | button label => cases hv
  | _ => rfl

theorem firings_around (before after : List Event) (c : Call) (reply : Except Fault c.Answer)
    (fs : List Firing) (hbefore : Asides before) (hafter : Runs after fs) :
    firings (before ++ .called c reply :: after) = fs := by
  rw [firings_append, firings_of_asides before hbefore, List.nil_append]
  exact hafter.firings

/-! ### Reports of a visit -/

/-- In the scene after some events every report among them has been heeded. -/
structure Heeded (id : String) (onChange onClick : List Firing) (store : Store)
    (events : List Event) : Prop where
  changes : ∀ ev ∈ events, ∀ v, ev.reported? = some v →
    (∃ w, store.find? id = some w ∧ w.value = v) ∧ firings events = onChange
  clicks : (∃ ev ∈ events, ev.isClick = true) → firings events = onClick

theorem Unreported.heeded {events : List Event} (h : Unreported events) (id : String)
    (onChange onClick : List Firing) (store : Store) :
    Heeded id onChange onClick store events := by
  constructor
  · intro ev hev v hv
    rw [h.changes ev hev] at hv
    cases hv
  · intro hclick
    obtain ⟨ev, hev, hclick⟩ := hclick
    rw [h.clicks ev hev] at hclick
    cases hclick

theorem Heeded.after {id : String} {onChange onClick : List Firing} {store : Store}
    {events earlier : List Event} (h : Heeded id onChange onClick store events)
    (hearlier : Unreported earlier) (hquiet : firings earlier = []) :
    Heeded id onChange onClick store (earlier ++ events) := by
  constructor
  · intro ev hev v hv
    rcases List.mem_append.1 hev with hev | hev
    · rw [hearlier.changes ev hev] at hv
      cases hv
    · rw [firings_append, hquiet]
      exact h.changes ev hev v hv
  · intro hclick
    obtain ⟨ev, hev, hclick⟩ := hclick
    rcases List.mem_append.1 hev with hev | hev
    · rw [hearlier.clicks ev hev] at hclick
      cases hclick
    · rw [firings_append, hquiet]
      exact h.clicks ⟨ev, hev, hclick⟩

theorem find?_write_self (store : Store) (id : String) (v : WidgetValue) :
    ∃ w, (store.write id v).find? id = some w ∧ w.value = v := by
  refine ⟨_, (store.find?_edit id id v fun _ => v).trans (if_pos rfl), rfl⟩

/-- Between two scenes an element heeds what is reported, as long as no pop is refused if it
pops first. -/
def Heeds (popsFirst : Bool) (e : Element) (s t : Scene σ) : Prop :=
  ∃ events, t.journal = s.journal ++ events ∧
    ((popsFirst = true → PopsAccepted events) →
      Heeded (stateKey e s.ancestors) (s.handlers.runFor e "onChange")
        (s.handlers.runFor e "onClick") t.store events)

theorem Visits.heeds {popsFirst : Bool} {seed : WidgetValue} {e : Element} {s t : Scene σ}
    (h : Visits popsFirst seed e s t) : Heeds popsFirst e s t := by
  cases h with
  | failed events hlater hasides =>
    exact ⟨events, hlater.journal, fun _ => hasides.runs.unreported.heeded _ _ _ _⟩
  | kept before after c reply hlater hbefore hafter hhands hlost =>
    refine ⟨_, hlater.journal, fun hpops => ?_⟩
    have hnone := reported?_eq_none_of_pops hlost fun hfirst ev hev =>
      hpops hfirst ev (List.mem_append_right _ (List.mem_cons_of_mem _ hev))
    have hcall : Unreported [.called c reply] := by
      constructor
      · exact List.forall_mem_singleton.2 hnone
      · exact List.forall_mem_singleton.2 (isClick_of_hands c reply seed _ hhands)
    have hall := unreported_append _ _ hbefore.runs.unreported
      (unreported_append _ _ hcall hafter.runs.unreported)
    exact hall.heeded _ _ _ _
  | changed before after c reply v hstore _ hjournal hbefore hruns hhands hreported _ =>
    refine ⟨_, hjournal, fun _ => ?_⟩
    have hfirings := firings_around before after c reply _ hbefore hruns
    constructor
    · intro ev hev v' hv'
      rw [hstore, hfirings]
      rcases List.mem_append.1 hev with hev | hev
      · rw [hbefore.runs.unreported.changes ev hev] at hv'
        cases hv'
      · rcases List.mem_cons.1 hev with rfl | hev
        · obtain rfl : v = v' := Option.some.inj (hreported.symm.trans hv')
          exact ⟨find?_write_self _ _ v, rfl⟩
        · rw [hruns.unreported.changes ev hev] at hv'
          cases hv'
    · intro hclick
      obtain ⟨ev, hev, hclick⟩ := hclick
      rcases List.mem_append.1 hev with hev | hev
      · rw [hbefore.runs.unreported.clicks ev hev] at hclick
        cases hclick
      · rcases List.mem_cons.1 hev with rfl | hev
        · rw [isClick_of_hands c reply seed _ hhands] at hclick
          cases hclick
        · rw [hruns.unreported.clicks ev hev] at hclick
          cases hclick

theorem PressedIn.heeds {e : Element} {s t : Scene σ} (h : PressedIn e s t) :
    Heeds true e s t := by
  obtain ⟨_, _, events, hjournal, hpressed⟩ := h
  refine ⟨events, hjournal, fun hpops => ?_⟩
  cases hpressed with
  | failed _ hasides => exact hasides.runs.unreported.heeded _ _ _ _
  | unclicked before after label reply hbefore hafter hlost =>
    have hclick : (Event.called (.button label) reply).isClick = false := by
      rw [← Bool.not_eq_true]
      intro hclick
      have hreply : reply = .ok true := by
        rcases reply with f | clicked
        · cases hclick
        · cases clicked with
          | false => cases hclick
          | true => rfl
      obtain ⟨ev, hev, hrefused⟩ := hlost hreply
      have haccepted := hpops rfl ev (List.mem_append_right _ (List.mem_cons_of_mem _ hev))
      rw [hrefused] at haccepted
      cases haccepted
    have hcall : Unreported [.called (.button label) reply] :=
      ⟨List.forall_mem_singleton.2 rfl, List.forall_mem_singleton.2 hclick⟩
    have hall := unreported_append _ _ hbefore.runs.unreported
      (unreported_append _ _ hcall hafter.runs.unreported)
    exact hall.heeded _ _ _ _
  | clicked before after label hbefore hruns =>
    constructor
    · have hchanges := List.forall_mem_append.2 ⟨hbefore.runs.unreported.changes,
        List.forall_mem_cons.2 ⟨(rfl : (Event.called (.button label) (.ok true)).reported? = none),
          hruns.unreported.changes⟩⟩
      intro ev hev v hv
      rw [hchanges ev hev] at hv
      cases hv
    · exact fun _ => firings_around before after (.button label) _ _ hbefore hruns

/-! ### Elements -/

theorem unreported_entrance (e : Element) (ancestors : List Element) (style : ComputedStyle) :
    Unreported (entrance e ancestors style) := by
  constructor
  · simp [entrance, Event.reported?]
  · simp [entrance, Event.isClick]

theorem Heeds.entering {popsFirst : Bool} {e : Element} {s t : Scene σ} {style : ComputedStyle}
    (h : Heeds popsFirst e (s.entering e style) t) : Heeds popsFirst e s t := by
  obtain ⟨events, hjournal, hheeded⟩ := h
  refine ⟨entrance e s.ancestors style ++ events, ?_, fun hpops => ?_⟩
  · rw [hjournal, Scene.entering, List.append_assoc]
  · have hlater := hheeded fun hfirst ev hev => hpops hfirst ev (List.mem_append_right _ hev)
    exact hlater.after (unreported_entrance e s.ancestors style) rfl

/-- Whichever of its calls are refused, a widget heeds what the backend reports, unless it is one
of the two that pop first and the pop is refused. Only a call that breaks off the frame keeps it
from its end. -/
theorem drawElement_heeds (stage : Stage σ) (e : Element) (style : ComputedStyle) (s : Scene σ)
    (popsFirst : Bool) (hpops : popsFirst? e = some popsFirst) :
    Draw.Ends (drawElement stage e style) s fun _ t => Heeds popsFirst e s t := by
  rw [drawElement_eq, drawWidget_eq]
  apply Draw.Comes.entering
  apply Draw.Ends.mono _ _ (fun _ t => Heeds popsFirst e (s.entering e style) t) _ ?_
    fun _ _ h => h.entering
  rw [popsFirst?_eq stage.config e style] at hpops
  cases hmanner : manner stage.config e style with
  | button =>
    rw [hmanner] at hpops
    cases hpops
    exact Draw.Ends.mono _ _ _ _ (ends_button stage e style _) fun _ _ h => h.heeds
  | field f =>
    rw [hmanner] at hpops
    cases hpops
    exact Draw.Ends.mono _ _ _ _ (ends_field stage e style _ f) fun _ _ h => h.heeds
  | _ =>
    rw [hmanner] at hpops
    cases hpops

/-! ### A backend that refuses every pop -/

/-- A backend that reports a change or a click whenever it can, and refuses every pop. -/
def clumsyBackend : Backend Unit where
  answer call _ :=
    match call with
    | .popColors _ => .error (.refused ⟨"pop_style_color", "stuck"⟩) ()
    | call => .ok (Renderer.eagerAnswer call) ()

def clumsyStage : Stage Unit := ⟨clumsyBackend, {}, .empty⟩

/-- A scene in which a handler of the name `save` waits. -/
def savingScene : Scene Unit := ⟨(), .new 10, ⟨.ofList [("save", ⟨"h", 0⟩)], 0⟩, [], []⟩

def savingElement (tag : String) : Element := ⟨tag, .ofList [("id", "w"), ("onChange", "save")], []⟩

/-- A style whose colours make every widget push one. -/
def loudStyle : ComputedStyle :=
  .ofList [("text-color", .color ⟨255, 255, 255, 255⟩),
    ("widget-background-color", .color ⟨0, 0, 0, 255⟩)]

theorem drawElement_heeds_refusedPop :
    popsFirst? (savingElement "InputText") = some false ∧
      Draw.Ends (drawElement clumsyStage (savingElement "InputText") loudStyle) savingScene
        fun _ t => Heeds false (savingElement "InputText") savingScene t := by
  have hfirst : popsFirst? (savingElement "InputText") = some false := by decide
  exact ⟨hfirst, drawElement_heeds clumsyStage _ _ _ false hfirst⟩

/-- The scene that a part leaves, however it ends. -/
def Draw.sceneAfter {α : Type} (body : Draw σ α) (s : Scene σ) : Scene σ :=
  match body s with
  | .ok _ t => t
  | .error _ t => t

/-- A checkbox whose pop is refused loses the change: it is not stored and no handler runs. -/
theorem checkbox_report_lost :
    let t := Draw.sceneAfter (drawElement clumsyStage (savingElement "Checkbox") loudStyle)
      savingScene
    t.journal.filterMap Event.reported? = [.bool true] ∧
      (t.store.find? "w").map StoreEntry.value = some (.bool false) ∧
        savingScene.handlers.runFor (savingElement "Checkbox") "onChange" = [⟨"h", 1⟩] ∧
          firings t.journal = [] := by
  decide +kernel

end FrameUI.Frame
