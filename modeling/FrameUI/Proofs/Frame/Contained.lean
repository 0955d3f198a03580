import FrameUI.Proofs.Frame.Brackets
import FrameUI.Proofs.Frame.Twins

/-!
# Contained refusals

A refusal is contained by the element whose call is refused. Main statement: two backends that
differ only in refusals of calls for elements, and of the ends of windows, to which the first
answers with nothing of note, draw the same frame; only the traces differ, by lines that tell of
errors (`Renderer.render_contained`).
-/

namespace FrameUI.Frame

open FrameUI.Markup (Element Node Tag)
open FrameUI.Style (ComputedStyle Rgba Sheet)

variable {σ τ α : Type}

/-! ### Colours and sizes -/

theorem reported?_of_isNeutral (c : Call) (a : c.Answer) (h : c.isNeutral a = true) :
    (Event.called c (.ok a)).reported? = none := by
  cases c with
  | inputText _ _ _ _ | slider _ _ _ _ | checkbox _ _ =>
    obtain ⟨_ | _, new⟩ := a
    · rfl
    · cases h
  | _ => rfl

theorem pairs_heed {b : Backend τ} {start : τ} (e : Element) (id : String) (c : Call)
    (reply : Except CallError c.Answer) :
    Draw.Pairs b start Draw.Done (Draw.heed e id c reply : Draw σ Unit)
      (Draw.heed e id c reply : Draw τ Unit) := by
  unfold Draw.heed
  split
  · exact Draw.Pairs.bind_done (Draw.pairs_writeState id _) fun _ =>
      Draw.pairs_notify e "onChange"
  · exact Draw.pairs_pure () () _ ⟨(), rfl, rfl⟩

theorem pairs_heedClick {b : Backend τ} {start : τ} (e : Element) (reply : Except CallError Bool) :
    Draw.Pairs b start Draw.Done (Draw.heedClick e reply : Draw σ Unit)
      (Draw.heedClick e reply : Draw τ Unit) := by
  rcases reply with err | _ | _
  · exact Draw.pairs_pure () () _ ⟨(), rfl, rfl⟩
  · exact Draw.pairs_pure () () _ ⟨(), rfl, rfl⟩
  · exact Draw.pairs_notify e "onClick"

section Widgets

variable {b : Backend τ} {start : τ} (first : Backend σ) (config : Config) (sheet : Sheet)
  (e : Element) (style : ComputedStyle)

/-- A call for no element that ends no window is answered alike. -/
theorem pairs_setting (c : Call) (hend : c ≠ .endWindow) (hwidget : c.widget? = none) :
    Draw.Pairs b start Draw.Same (Draw.issue first c) (Draw.issue b c) := by
  apply Draw.pairs_issue first c
  rintro journal _ (hc | ⟨hsome, _⟩)
  · exact hend hc
  · rw [hwidget] at hsome
    cases hsome

theorem pairs_setItemWidth :
    Draw.Pairs b start Draw.Same (setItemWidth ⟨first, config, sheet⟩ style)
      (setItemWidth ⟨b, config, sheet⟩ style) := by
  unfold setItemWidth
  split
  · exact pairs_setting first _ nofun rfl
  · exact Draw.pairs_pure () () _ rfl

theorem pairs_setWidth (f : Field) :
    Draw.Pairs b start Draw.Same (f.setWidth ⟨first, config, sheet⟩ style)
      (f.setWidth ⟨b, config, sheet⟩ style) := by
  unfold Field.setWidth
  split
  · exact pairs_setItemWidth first config sheet style
  · exact Draw.pairs_pure () () _ rfl

theorem pairs_setWindowSize :
    Draw.Pairs b start Draw.Same (setWindowSize ⟨first, config, sheet⟩ style)
      (setWindowSize ⟨b, config, sheet⟩ style) := by
  unfold setWindowSize
  split
  · exact pairs_setting first _ nofun rfl
  · exact Draw.pairs_pure () () _ rfl

theorem pairs_pushColor (slot : ColorSlot) (color : Rgba) :
    Draw.Pairs b start Draw.Done (pushColor ⟨first, config, sheet⟩ slot color)
      (pushColor ⟨b, config, sheet⟩ slot color) := by
  refine Draw.Pairs.attempt_bind (P := Draw.Same) (fun _ => rfl)
    (pairs_setting first (.pushColor slot color) nofun rfl) ?_
  rintro outcome outcome' hsame
  obtain rfl : outcome' = outcome := hsame
  cases outcome' with
  | ok _ => exact Draw.pairs_pure 1 1 _ ⟨1, rfl, rfl⟩
  | error err =>
    exact Draw.Pairs.bind_done (Draw.pairs_log _ _ _) fun _ => Draw.pairs_pure 0 0 _ ⟨0, rfl, rfl⟩

theorem pairs_pushColors (colors : List (ColorSlot × Rgba)) :
    Draw.Pairs b start Draw.Done (pushColors ⟨first, config, sheet⟩ colors)
      (pushColors ⟨b, config, sheet⟩ colors) := by
  induction colors with
  | nil => exact Draw.pairs_pure 0 0 _ ⟨0, rfl, rfl⟩
  | cons color rest ih =>
    refine Draw.Pairs.bind_done (pairs_pushColor first config sheet color.1 color.2) fun here => ?_
    exact Draw.Pairs.bind_done ih fun more => Draw.pairs_pure _ _ _ ⟨here + more, rfl, rfl⟩

theorem pairs_popColors (n : Nat) :
    Draw.Pairs b start Draw.Same (popColors ⟨first, config, sheet⟩ n)
      (popColors ⟨b, config, sheet⟩ n) := by
  unfold popColors
  split
  · exact Draw.pairs_pure () () _ rfl
  · exact pairs_setting first _ nofun rfl

/-! ### Widgets -/

/-- The call for an element may be refused by the second backend alone. -/
theorem pairs_call (c : Call) :
    Draw.Pairs b start (Draw.Spoils c.isNeutral) (Draw.issue first c) (Draw.issue b c) :=
  fun s hs => Draw.pairsFrom_issue_spoiled first c s fun _ => hs

/-- A widget closes alike under both, unless the second has refused its call. -/
theorem pairs_close (n : Nat) (reply reply' : Except CallError α)
    (hreply : Draw.Spoils (fun _ => true) reply reply') :
    Draw.Pairs b start Draw.Contained
      (do
        popColors ⟨first, config, sheet⟩ n
        let _ ← Draw.rethrow reply)
      (do
        popColors ⟨b, config, sheet⟩ n
        let _ ← Draw.rethrow reply') := by
  refine Draw.Pairs.bind (pairs_popColors first config sheet n) (fun _ => ?_) fun _ => Or.inl rfl
  rcases hreply with rfl | ⟨a, err, rfl, _, rfl⟩
  · exact Draw.Pairs.bind (Draw.pairs_rethrow reply' reply' _ rfl)
      (fun _ => Draw.pairs_pure () () _ (Or.inl rfl)) fun _ => Or.inl rfl
  · exact Draw.pairs_spoiled err _

/-- A widget in colours is drawn alike under both, unless the second refuses its call: nothing is
to be done then, as nothing was about the neutral answer. -/
theorem pairs_painted (colors : List (ColorSlot × Rgba)) (popsFirst : Bool) (c : Call)
    (react : Except CallError c.Answer → Draw σ Unit)
    (react' : Except CallError c.Answer → Draw τ Unit)
    (hreact : ∀ reply, Draw.Pairs b start Draw.Done (react reply) (react' reply))
    (hneutral : ∀ a, c.isNeutral a = true → react (.ok a) = pure ())
    (hrefused : ∀ err, react' (.error err) = pure ()) :
    Draw.Pairs b start Draw.Contained
      (painted ⟨first, config, sheet⟩ colors popsFirst c react)
      (painted ⟨b, config, sheet⟩ colors popsFirst c react') := by
  refine Draw.Pairs.bind_done (pairs_pushColors first config sheet _) fun n => ?_
  refine Draw.Pairs.attempt_bind (Draw.spoils_refl _) (pairs_call first c) ?_
  intro reply reply' hreply
  cases popsFirst with
  | true =>
    refine Draw.Pairs.bind (pairs_popColors first config sheet n) (fun _ => ?_)
      fun _ => Or.inl rfl
    rcases hreply with rfl | ⟨a, err, rfl, ha, rfl⟩
    · exact Draw.Pairs.bind (Draw.pairs_rethrow reply' reply' _ rfl)
        (fun _ => (hreact reply').mono fun _ _ h => h.same.contained) fun _ => Or.inl rfl
    · rw [hneutral a ha]
      exact Draw.pairs_spoiled err _
  | false =>
    rcases hreply with rfl | ⟨a, err, rfl, ha, rfl⟩
    · exact Draw.Pairs.bind_done (hreact reply') fun _ =>
        pairs_close first config sheet n reply' reply' (Or.inl rfl)
    · rw [hneutral a ha, hrefused]
      exact Draw.Pairs.bind_done (Draw.pairs_pure () () _ ⟨(), rfl, rfl⟩) fun _ =>
        pairs_close first config sheet n _ _ (Or.inr ⟨a, err, rfl, rfl, rfl⟩)

theorem pairs_button :
    Draw.Pairs b start Draw.Contained (drawButton ⟨first, config, sheet⟩ e style)
      (drawButton ⟨b, config, sheet⟩ e style) := by
  rw [drawButton_eq, drawButton_eq]
  refine Draw.Pairs.bind (pairs_setItemWidth first config sheet style) (fun _ => ?_)
    fun _ => Or.inl rfl
  refine pairs_painted first config sheet _ _ _ _ _ (pairs_heedClick e) (fun clicked ha => ?_)
    fun _ => rfl
  cases clicked with
  | false => rfl
  | true => cases ha

theorem pairs_field (f : Field) :
    Draw.Pairs b start Draw.Contained (f.draw ⟨first, config, sheet⟩ e style)
      (f.draw ⟨b, config, sheet⟩ e style) := by
  refine Draw.Pairs.bind_done (Draw.pairs_keyOf e) fun id => ?_
  refine Draw.Pairs.bind_done (Draw.pairs_readState id _) fun stored => ?_
  refine Draw.Pairs.bind (pairs_setWidth first config sheet style f) (fun _ => ?_)
    fun _ => Or.inl rfl
  refine pairs_painted first config sheet _ _ _ _ _ (pairs_heed e id _) (fun a ha => ?_)
    fun err => ?_
  · exact Draw.heed_of_none e id (reported?_of_isNeutral _ a ha)
  · exact Draw.heed_of_none e id (reported?_of_error _ (.refused err))

theorem pairs_closeWindow (n : Nat) (opened : Except CallError Bool) :
    Draw.Pairs b start Draw.Contained (closeWindow ⟨first, config, sheet⟩ n opened)
      (closeWindow ⟨b, config, sheet⟩ n opened) := by
  refine Draw.Pairs.attempt_bind (P := Draw.Same) (fun _ => rfl)
    (pairs_popColors first config sheet n) ?_
  rintro popped popped' hsame
  obtain rfl : popped' = popped := hsame
  refine Draw.Pairs.attempt_bind (Draw.spoils_refl _) (pairs_call first .endWindow) ?_
  intro ended ended' hended
  refine Draw.Pairs.bind (Draw.pairs_rethrow opened opened _ rfl) (fun _ => ?_)
    fun _ => Or.inl rfl
  refine Draw.Pairs.bind (Draw.pairs_rethrow popped' popped' _ rfl) (fun _ => ?_)
    fun _ => Or.inl rfl
  exact Draw.pairs_rethrow ended ended' _ (Draw.Spoils.contained hended)

variable {children : Draw σ Unit} {children' : Draw τ Unit}

theorem pairs_window (hchildren : Draw.Pairs b start Draw.Contained children children') :
    Draw.Pairs b start Draw.Contained (drawWindow ⟨first, config, sheet⟩ e style children)
      (drawWindow ⟨b, config, sheet⟩ e style children') := by
  rw [drawWindow_eq, drawWindow_eq]
  refine Draw.Pairs.bind (pairs_setWindowSize first config sheet style) (fun _ => ?_)
    fun _ => Or.inl rfl
  refine Draw.Pairs.bind_done (pairs_pushColors first config sheet _) fun n => ?_
  refine Draw.Pairs.attempt_bind (P := Draw.Same) (fun _ => rfl)
    (pairs_setting first (.beginWindow _ _) nofun rfl) ?_
  rintro opened opened' hsame
  obtain rfl : opened' = opened := hsame
  have hinside : Draw.Pairs b start Draw.Done (inWindow e children opened')
      (inWindow e children' opened') := by
    rcases opened' with err | _ | _
    · exact Draw.pairs_pure () () _ ⟨(), rfl, rfl⟩
    · exact Draw.pairs_pure () () _ ⟨(), rfl, rfl⟩
    · exact hchildren.contain _ _ e
  exact Draw.Pairs.bind_done hinside fun _ => pairs_closeWindow first config sheet n opened'

/-! ### Elements -/

/-- The single call that an element makes, if it is drawn by one. -/
def Manner.call? : Manner → Option Call
  | .call c _ _ => some c
  | _ => none

theorem isSome_widget?_of_manner (c : Call) (h : (manner config e style).call? = some c) :
    c.widget?.isSome = true := by
  unfold manner at h
  split at h <;> cases h
  · rcases textCall_eq e style with ⟨color, htext⟩ | htext <;> rw [htext] <;> rfl
  · rfl
  · rfl
  · rfl

theorem kind_ne_text (h : (manner config e style).call? = none) : e.kind ≠ .text := by
  intro hkind
  rw [manner, hkind] at h
  cases h

/-- An element may wait for its call only if it makes a single one. -/
theorem pairsFrom_manner (m : Manner) (s : Scene σ)
    (hchildren : Draw.Pairs b start Draw.Contained children children')
    (hcalm : m.call? = none → Calm s.journal)
    (hwidget : ∀ c, m.call? = some c → c.widget?.isSome = true) :
    Draw.PairsFrom b start s Draw.Contained (m.draw ⟨first, config, sheet⟩ e style children)
      (m.draw ⟨b, config, sheet⟩ e style children') := by
  have hwithin := hchildren.within e
  cases m with
  | nothing => exact Draw.pairs_pure () () _ (Or.inl rfl) s (hcalm rfl)
  | warning =>
    exact ((Draw.pairs_log _ _ _).mono fun _ _ h => h.same.contained) s (hcalm rfl)
  | inside => exact hwithin s (hcalm rfl)
  | window => exact pairs_window first config sheet e style hwithin s (hcalm rfl)
  | button => exact pairs_button first config sheet e style s (hcalm rfl)
  | call c hplain haside =>
    refine (Draw.pairsFrom_issue_spoiled first c s fun hnone => ?_).forget
    have hsome := hwidget c rfl
    rw [hnone] at hsome
    cases hsome
  | field f => exact pairs_field first config sheet e style f s (hcalm rfl)

theorem pairs_widget (hchildren : Draw.Pairs b start Draw.Same children children') :
    Draw.Pairs b start Draw.Contained (drawWidget ⟨first, config, sheet⟩ e style children)
      (drawWidget ⟨b, config, sheet⟩ e style children') := by
  intro s _
  rw [drawWidget_eq, drawWidget_eq]
  apply Draw.PairsFrom.entering
  refine pairsFrom_manner first config sheet e style (manner config e style) _
    (hchildren.mono fun _ _ h => h.contained) (fun hnone hdue => ?_)
    (isSome_widget?_of_manner config e style)
  rw [Scene.entering, dueAfter_append] at hdue
  exact kind_ne_text config e style hnone (Option.some.inj hdue)

end Widgets

/-! ### Trees -/

section Trees

variable {b : Backend τ} {start : τ} (first : Backend σ) (config : Config) (sheet : Sheet)

/-- A run among elements is no text element, so both backends answer its call alike. -/
theorem pairs_run (run : String) :
    Draw.Pairs b start Draw.Same (drawRun ⟨first, config, sheet⟩ run)
      (drawRun ⟨b, config, sheet⟩ run) := by
  rw [drawRun_eq, drawRun_eq]
  split
  · exact Draw.pairs_pure () () _ rfl
  · refine Draw.Pairs.bind (Draw.pairs_issue first _ ?_)
      (fun _ => Draw.pairs_pure () () _ rfl) fun _ => rfl
    rintro journal hcalm (hend | ⟨_, hdue⟩)
    · cases hend
    · exact hcalm hdue.symm

theorem pairs_styled (source report : String) (e : Element) {children : Draw σ Unit}
    {children' : Draw τ Unit} (hchildren : Draw.Pairs b start Draw.Same children children') :
    Draw.Pairs b start Draw.Done (drawStyled ⟨first, config, sheet⟩ source report e children)
      (drawStyled ⟨b, config, sheet⟩ source report e children') := by
  refine Draw.Pairs.bind_done (Draw.pairs_styleOf sheet e) fun style => ?_
  exact (pairs_widget first config sheet e style hchildren).contain source report e

theorem walk_pairs : Walk ⟨first, config, sheet⟩ ⟨b, config, sheet⟩ fun _ body body' =>
    Draw.Pairs b start Draw.Same body body' where
  nothing := Draw.pairs_pure () () _ rfl
  run := pairs_run first config sheet
  next h hnext := Draw.Pairs.bind h (fun _ => hnext) fun _ => rfl
  element source report e _ _ h :=
    (pairs_styled first config sheet source report e h).mono fun _ _ h => h.same

theorem pairs_document (root : Element) :
    Draw.Pairs b start Draw.Done (drawDocument ⟨first, config, sheet⟩ root)
      (drawDocument ⟨b, config, sheet⟩ root) := by
  rw [drawDocument_eq, drawDocument_eq]
  exact pairs_styled first config sheet _ _ root
    ((walk_pairs first config sheet).nodes root.children)

end Trees

/-! ### Frames -/

namespace Renderer

/-- The renderer with another backend, if need be for devices of another kind. -/
def equip (r : Renderer σ) (b : Backend τ) : Renderer τ :=
  ⟨r.config, r.store, r.handlers, some b, r.tracer⟩

/-- Two renderings of the same frame: the calls, the runs of handlers, the widget state and the
status are the same, and the second trace is the first with lines added that tell of errors. -/
structure SameFrame (plain : Rendering σ) (spoiled : Rendering τ) : Prop where
  deeds : deeds spoiled.journal = deeds plain.journal
  store : spoiled.renderer.store = plain.renderer.store
  handlers : spoiled.renderer.handlers = plain.renderer.handlers
  status : spoiled.status = plain.status
  traced : ErrorsAdded (tracedSteps plain.journal) (tracedSteps spoiled.journal)

variable {ρ : Type} (r : Renderer ρ) (first : Backend σ) (b : Backend τ)
  (markup stylesheet : String)

theorem pairs_drawSources {start : τ} :
    Draw.Pairs b start Draw.Done ((r.equip first).drawSources first markup stylesheet)
      ((r.equip b).drawSources b markup stylesheet) := by
  refine Draw.Pairs.bind_done (Draw.pairs_lift _) fun root => ?_
  refine Draw.Pairs.bind_done (Draw.pairs_lift _) fun sheet? => ?_
  cases sheet? with
  | none =>
    refine Draw.Pairs.bind_done (Draw.pairs_log _ _ _) fun _ => ?_
    exact Draw.Pairs.bind_done (Draw.pairs_trace _) fun _ =>
      Draw.pairs_pure _ _ _ ⟨.stylesheetRejected, rfl, rfl⟩
  | some sheet =>
    refine Draw.Pairs.bind_done (Draw.pairs_changeStore Store.advance) fun _ => ?_
    refine Draw.Pairs.bind_done (pairs_document first r.config sheet root) fun _ => ?_
    exact Draw.Pairs.bind_done (Draw.pairs_changeStore Store.sweep) fun _ =>
      Draw.pairs_pure _ _ _ ⟨.rendered, rfl, rfl⟩

theorem pairs_frame (start : τ) :
    Draw.Pairs b start Draw.Done ((r.equip first).frame markup stylesheet)
      ((r.equip b).frame markup stylesheet) := by
  have hbody : Draw.Pairs b start Draw.Done ((r.equip first).frameBody markup stylesheet)
      ((r.equip b).frameBody markup stylesheet) := by
    simp only [frameBody, equip]
    split
    · exact Draw.Pairs.bind_done (Draw.pairs_log _ _ _) fun _ =>
        Draw.pairs_pure _ _ _ ⟨.emptyMarkup, rfl, rfl⟩
    · exact r.pairs_drawSources first b markup stylesheet
  refine Draw.Pairs.bind_done (Draw.pairs_emit _ rfl) fun _ => ?_
  refine Draw.Pairs.bind_done hbody fun status => ?_
  refine Draw.Pairs.bind_done (Draw.pairs_emit _ rfl) fun _ => ?_
  exact Draw.Pairs.bind_done (Draw.pairs_emit _ rfl) fun _ =>
    Draw.pairs_pure _ _ _ ⟨status, rfl, rfl⟩

/-- A frame of markup that is not blank under an accepted stylesheet is rendered. -/
theorem ends_frame_rendered (device : σ) (hmarkup : (Text.trim markup.toList).isEmpty = false)
    (hsheet : (Style.parse? r.config.validator stylesheet).value.isSome = true) :
    Draw.Ends ((r.equip first).frame markup stylesheet) ((r.equip first).scene device)
      fun outcome _ => outcome = .ok .rendered := by
  obtain ⟨sheet, hsheet⟩ := Option.isSome_iff_exists.1 hsheet
  have hbody : ∀ s, Draw.Ends ((r.equip first).frameBody markup stylesheet) s
      fun outcome _ => outcome = .ok .rendered := by
    intro s
    simp only [frameBody, equip, hmarkup, Bool.false_eq_true, if_false]
    refine Draw.Ends.after _ _ s _ _ _ rfl ?_
    refine Draw.Ends.after _ _ _ _ _ _ rfl ?_
    rw [hsheet]
    refine Draw.Ends.after _ _ _ _ () _ rfl ?_
    apply Draw.Ends.bind _ _ _ _ _ (completes_document ⟨first, r.config, sheet⟩ _ _)
    · intro _ t _
      refine Draw.Ends.after _ _ t _ () _ rfl ?_
      exact Draw.ends_pure _ _ _ rfl
    · rintro err t ⟨_, _, ⟨a, ha⟩, _⟩
      cases ha
  refine Draw.Ends.after _ _ _ _ () _ rfl ?_
  apply Draw.Ends.bind _ _ _ _ _ (hbody _)
  · intro status t hstatus
    refine Draw.Ends.after _ _ t _ () _ rfl ?_
    refine Draw.Ends.after _ _ _ _ () _ rfl ?_
    exact Draw.ends_pure status _ _ hstatus
  · intro err t hstatus
    cases hstatus

/-- Two backends that differ only in refusals of calls for elements, and of the ends of windows,
draw the same frame. It is rendered if the markup is not blank, the stylesheet is accepted and no
call breaks the frame off. -/
theorem render_contained (device : σ) (start : τ)
    (hechoes : b.Echoes start none
      ((r.equip first).render device markup stylesheet).value.journal) :
    SameFrame ((r.equip first).render device markup stylesheet).value
        ((r.equip b).render start markup stylesheet).value ∧
      (Unbroken ((r.equip first).render device markup stylesheet).value.journal →
        (Text.trim markup.toList).isEmpty = false →
        (Style.parse? r.config.validator stylesheet).value.isSome = true →
        ((r.equip first).render device markup stylesheet).value.status = some .rendered) := by
  have hcalm : Calm ((r.equip first).scene device).journal := nofun
  have htwins : Twins b start ((r.equip first).scene device) ((r.equip b).scene start) :=
    ⟨rfl, rfl, rfl, rfl, rfl, .nil⟩
  obtain ⟨outcome, s, hrun, -, -, htwin⟩ :=
    r.pairs_frame first b markup stylesheet start _ hcalm
  obtain ⟨hstatus, hjournal, hstore, hhandlers⟩ :=
    (r.equip first).render_of_frame device markup stylesheet hrun
  rw [hjournal] at hechoes ⊢
  obtain ⟨outcome', t, hrun', hjoint, ht⟩ := htwin _ htwins hechoes
  obtain ⟨hstatus', hjournal', hstore', hhandlers'⟩ :=
    (r.equip b).render_of_frame start markup stylesheet hrun'
  refine ⟨⟨?_, ?_, ?_, ?_, ?_⟩, fun hunbroken hmarkup hsheet => ?_⟩
  · rw [hjournal, hjournal', ht.deeds]
  · rw [hstore, hstore', ht.store]
  · rw [hhandlers, hhandlers', ht.handlers]
  · rcases hjoint with ⟨rfl, rfl⟩ | ⟨_, _, rfl, rfl, status, rfl, rfl⟩
    · rw [hstatus, hstatus']
    · rw [hstatus, hstatus']
  · rw [hjournal, hjournal']
    exact ht.traced
  · obtain ⟨_, rfl, rfl⟩ :=
      (r.ends_frame_rendered first markup stylesheet device hmarkup hsheet).exists_of_unbroken
        hrun hunbroken
    exact hstatus

/-! ### A backend that refuses whatever may be refused -/

/-- An answer to every call: windows are open, and nothing is clicked or changed. -/
def idleAnswer : (call : Call) → call.Answer
  | .beginWindow .. => true
  | .button .. => false
  | .inputText _ _ buffer _ => ⟨false, buffer⟩
  | .slider _ value _ _ => ⟨false, value⟩
  | .checkbox _ checked => ⟨false, checked⟩
  | .endWindow | .text .. | .textColored .. | .sameLine .. | .spacing | .separator
  | .windowSize .. | .itemWidth .. | .pushColor .. | .popColors .. => ()

def idleBackend : Backend Unit where
  answer call _ := .ok (idleAnswer call) ()

/-- A backend that refuses every call for an element and every end of a window. It numbers its
calls. -/
def sullenBackend : Backend Nat where
  answer call count :=
    if call.widget?.isSome ∨ call = .endWindow then
      .error (.refused ⟨call.name, s!"not at call {count}"⟩) (count + 1)
    else .ok (idleAnswer call) (count + 1)

def everyKind : String :=
  "<App><Window title='a'><Text>b</Text><Button>c</Button><InputText id='d'/><SliderFloat/>" ++
    "<Checkbox/><Window><Text class='e'>f</Text></Window><SameLine/><Spacing/><Separator/>" ++
    "</Window></App>"

def colourOfOne : String := ".e \x7b text-color: 0xFF0000FF; \x7d"

theorem render_contained_everyKind :
    sullenBackend.Echoes 0 none
        (((ofConfig {} : Renderer Unit).equip idleBackend).render () everyKind
          colourOfOne).value.journal ∧
      Unbroken
        (((ofConfig {} : Renderer Unit).equip idleBackend).render () everyKind
          colourOfOne).value.journal ∧
      SameFrame
        (((ofConfig {} : Renderer Unit).equip idleBackend).render () everyKind colourOfOne).value
        (((ofConfig {} : Renderer Unit).equip sullenBackend).render 0 everyKind
          colourOfOne).value ∧
      (((ofConfig {} : Renderer Unit).equip idleBackend).render () everyKind
        colourOfOne).value.status = some .rendered := by
  obtain ⟨hechoes, hunbroken⟩ : sullenBackend.Echoes 0 none
      (((ofConfig {} : Renderer Unit).equip idleBackend).render () everyKind
        colourOfOne).value.journal ∧ Unbroken
      (((ofConfig {} : Renderer Unit).equip idleBackend).render () everyKind
        colourOfOne).value.journal := by decide +kernel
  have hmarkup : (Text.trim everyKind.toList).isEmpty = false := by decide +kernel
  have hsheet : (Style.parse? (ofConfig {} : Renderer Unit).config.validator
      colourOfOne).value.isSome = true := by decide +kernel
  have hcontained := render_contained (ofConfig {} : Renderer Unit) idleBackend sullenBackend
    everyKind colourOfOne () 0 hechoes
  exact ⟨hechoes, hunbroken, hcontained.1, hcontained.2 hunbroken hmarkup hsheet⟩

end Renderer

end FrameUI.Frame
