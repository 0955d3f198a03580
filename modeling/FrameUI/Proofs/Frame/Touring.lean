import FrameUI.Frame.Recorder
import FrameUI.Proofs.Frame.Tending
import FrameUI.Proofs.Frame.Verdicts

/-!
# The tour of a document

A frame visits the elements of its document in the order of the document, some of them not at
all. Each is drawn in the style, and with the state, of the place at which it stands, whatever has
failed before. Main statement: this holds of every frame, and the elements around are all taken
off again by its end (`Renderer.render_tours`).
-/

namespace FrameUI.Frame

open FrameUI.Markup (Element Node Site Descends)
open FrameUI.Style (ComputedStyle Sheet)

variable {σ α β : Type}

/-! ### Tours -/

/-- The site at which an element is entered, and the style in which it is drawn. -/
def Event.visit? : Event → Option (Site × ComputedStyle)
  | entered e ancestors style => some (⟨ancestors, e⟩, style)
  | _ => none

def visits (events : List Event) : List (Site × ComputedStyle) := events.filterMap Event.visit?

/-- The event of an element that is entered at its site in its own style. -/
def Event.visit (sheet : Sheet) (x : Site) : Event :=
  .entered x.element x.ancestors (sheet.styleOf x.element x.ancestors).value

/-- What is noted while some sites are visited in order, with what becomes of the store: sites may
be skipped, and an element with a state does to the store what is its own under its key. -/
inductive Tour (sheet : Sheet) : List Site → Store → List Event → Store → Prop
  | done (store : Store) : Tour sheet [] store [] store
  | skipped (x : Site) {sites : List Site} {before after : Store} {events : List Event} :
      Tour sheet sites before events after → Tour sheet (x :: sites) before events after
  | noted (ev : Event) {sites : List Site} {before after : Store} {events : List Event} :
      ev.isStateless = true → Tour sheet sites before events after →
      Tour sheet sites before (ev :: events) after
  | passed (x : Site) {sites : List Site} {before after : Store} {events : List Event} :
      seedOf? x.element = none → Tour sheet sites before events after →
      Tour sheet (x :: sites) before (.visit sheet x :: events) after
  | tended (x : Site) (seed : WidgetValue) (own : List Event) {sites : List Site}
      {before between after : Store} {events : List Event} :
      seedOf? x.element = some seed →
      Tends (stateKey x.element x.ancestors) seed before own between →
      Tour sheet sites between events after →
      Tour sheet (x :: sites) before (.visit sheet x :: (own ++ events)) after

section Tours

variable {sheet : Sheet} {sites more : List Site} {before between after : Store}
  {events later : List Event}

theorem visits_append (events later : List Event) :
    visits (events ++ later) = visits events ++ visits later := List.filterMap_append

theorem visits_eq_nil (events : List Event) (h : ∀ ev ∈ events, ev.visit? = none) :
    visits events = [] := List.filterMap_eq_nil_iff.2 h

theorem Event.visit?_of_isStateless (ev : Event) (h : ev.isStateless = true) :
    ev.visit? = none := by
  cases ev with
  | entered e ancestors style => cases h
  | _ => rfl

theorem Event.HandsOver.visit? {seed stored : WidgetValue} {ev : Event}
    (h : ev.HandsOver seed stored) : ev.visit? = none := by
  cases ev with
  | entered e ancestors style => cases h
  | _ => rfl

/-- The visits of a tour: sites in order, each in its own style. -/
theorem Tour.visits_eq (h : Tour sheet sites before events after) :
    ∃ visited : List Site, visited.Sublist sites ∧
      visits events = visited.map fun x => (x, (sheet.styleOf x.element x.ancestors).value) := by
  induction h with
  | done store => exact ⟨[], .refl _, rfl⟩
  | skipped x _ ih =>
    obtain ⟨visited, hsublist, hvisits⟩ := ih
    exact ⟨visited, hsublist.cons x, hvisits⟩
  | noted ev hstateless _ ih =>
    obtain ⟨visited, hsublist, hvisits⟩ := ih
    refine ⟨visited, hsublist, ?_⟩
    rw [visits, List.filterMap_cons_none (ev.visit?_of_isStateless hstateless)]
    exact hvisits
  | passed x _ _ ih =>
    obtain ⟨visited, hsublist, hvisits⟩ := ih
    exact ⟨x :: visited, hsublist.cons_cons x, congrArg (_ :: ·) hvisits⟩
  | tended x seed own _ htends _ ih =>
    obtain ⟨visited, hsublist, hvisits⟩ := ih
    refine ⟨x :: visited, hsublist.cons_cons x, congrArg (_ :: ·) ?_⟩
    change visits (own ++ _) = _
    rw [visits_append, visits_eq_nil own fun ev hev => (htends.hands ev hev).visit?]
    exact hvisits

theorem Tour.append (h : Tour sheet sites before events between)
    (h' : Tour sheet more between later after) :
    Tour sheet (sites ++ more) before (events ++ later) after := by
  induction h with
  | done store => exact h'
  | skipped x _ ih => exact .skipped x (ih h')
  | noted ev hstateless _ ih => exact .noted ev hstateless (ih h')
  | passed x hnone _ ih => exact .passed x hnone (ih h')
  | tended x seed own hseed htends _ ih =>
    rw [List.cons_append, List.cons_append, List.append_assoc]
    exact .tended x seed own hseed htends (ih h')

theorem tour_nil (sites : List Site) (store : Store) : Tour sheet sites store [] store := by
  induction sites with
  | nil => exact .done store
  | cons x sites ih => exact .skipped x ih

theorem Tour.skipping (h : Tour sheet sites before events after) (more : List Site) :
    Tour sheet (sites ++ more) before events after := by
  have hall := h.append (tour_nil more after)
  rw [List.append_nil] at hall
  exact hall

theorem Tour.noting_before (h : Tour sheet sites before events after) (earlier : List Event)
    (hearlier : ∀ ev ∈ earlier, ev.isStateless = true) :
    Tour sheet sites before (earlier ++ events) after := by
  induction earlier with
  | nil => exact h
  | cons ev earlier ih =>
    obtain ⟨hev, hrest⟩ := List.forall_mem_cons.1 hearlier
    exact .noted ev hev (ih hrest)

theorem tour_noting (sites : List Site) (store : Store) (events : List Event)
    (h : ∀ ev ∈ events, ev.isStateless = true) : Tour sheet sites store events store := by
  have hall : Tour sheet sites store (events ++ []) store :=
    (tour_nil sites store).noting_before events h
  rw [List.append_nil] at hall
  exact hall

theorem Tour.noting_after (h : Tour sheet sites before events after) (later : List Event)
    (hlater : ∀ ev ∈ later, ev.isStateless = true) :
    Tour sheet sites before (events ++ later) after := by
  have hall := h.append (tour_noting [] after later hlater)
  rw [List.append_nil] at hall
  exact hall

end Tours

/-! ### Scenes and parts -/

/-- A later scene, between which and the first some sites have been toured. -/
structure Scene.Toured (sheet : Sheet) (sites : List Site) (s : Scene σ)
    (outcome : Except Fault α) (t : Scene σ) : Prop where
  ancestors : outcome = .error .brokenOff ∨ t.ancestors = s.ancestors
  journal : ∃ events, t.journal = s.journal ++ events ∧ Tour sheet sites s.store events t.store

theorem Scene.SameState.toured {s t : Scene σ} (h : s.SameState t) (sheet : Sheet)
    (sites : List Site) (outcome : Except Fault α) : s.Toured sheet sites outcome t := by
  obtain ⟨events, hjournal, hevents⟩ := h.journal
  refine ⟨.inr h.ancestors, events, hjournal, ?_⟩
  rw [h.store]
  exact tour_noting sites s.store events hevents

theorem Scene.Toured.trans {sheet : Sheet} {sites more : List Site} {s t u : Scene σ}
    {outcome : Except Fault α} {result : Except Fault β} (h : s.Toured sheet sites outcome t)
    (hback : t.ancestors = s.ancestors) (h' : t.Toured sheet more result u) :
    s.Toured sheet (sites ++ more) result u := by
  obtain ⟨events, hjournal, htour⟩ := h.journal
  obtain ⟨later, hjournal', htour'⟩ := h'.journal
  refine ⟨h'.ancestors.imp_right fun hsame => hsame.trans hback, events ++ later, ?_,
    htour.append htour'⟩
  rw [hjournal', hjournal, List.append_assoc]

theorem Scene.Toured.skipping {sheet : Sheet} {sites : List Site} {s t : Scene σ}
    {outcome : Except Fault α} (h : s.Toured sheet sites outcome t) (more : List Site)
    {result : Except Fault β}
    (hbroken : outcome = .error .brokenOff → result = .error .brokenOff) :
    s.Toured sheet (sites ++ more) result t := by
  obtain ⟨events, hjournal, htour⟩ := h.journal
  exact ⟨h.ancestors.imp_left hbroken, events, hjournal, htour.skipping more⟩

namespace Draw

/-- From a scene a part tours some sites. -/
def Tours (sheet : Sheet) (sites : List Site) (body : Draw σ α) (s : Scene σ) : Prop :=
  Comes body s fun outcome t => s.Toured sheet sites outcome t

variable {sheet : Sheet} {sites more : List Site} {body : Draw σ α} {s : Scene σ}

theorem Stateless.tours (h : Stateless body) (s : Scene σ) : Tours sheet sites body s :=
  (h s).mono fun outcome _ ht => ht.toured sheet sites outcome

theorem tours_bind {next : α → Draw σ β} (h : Tours sheet sites body s)
    (hnext : ∀ a t, t.ancestors = s.ancestors → Tours sheet more (next a) t) :
    Tours sheet (sites ++ more) (body >>= next) s := by
  refine Comes.bind h (fun a t ht => ?_) fun f t ht => ht.skipping more ?_
  · have hback := ht.ancestors.resolve_left nofun
    exact (hnext a t hback).mono fun _ _ hu => ht.trans hback hu
  · rintro ⟨⟩
    rfl

theorem tours_after {next : α → Draw σ β} {t : Scene σ} {a : α} (hrun : body s = .ok a t)
    (ht : s.SameState t) (h : Tours sheet sites (next a) t) :
    Tours sheet sites (body >>= next) s :=
  Comes.after hrun (h.mono fun _ _ hu => (ht.toured sheet [] (.ok a)).trans ht.ancestors hu)

theorem Stateless.bind_tours {next : α → Draw σ β} (h : Stateless body)
    (hnext : ∀ a t, t.ancestors = s.ancestors → Tours sheet sites (next a) t) :
    Tours sheet sites (body >>= next) s :=
  tours_bind (h.tours s : Tours sheet [] body s) hnext

theorem tours_bind_stateless {next : α → Draw σ β} (h : Tours sheet sites body s)
    (hnext : ∀ a, Stateless (next a)) : Tours sheet sites (body >>= next) s := by
  have hall : Tours sheet (sites ++ []) (body >>= next) s :=
    tours_bind h fun a t _ => (hnext a).tours t
  rw [List.append_nil] at hall
  exact hall

theorem tours_attempting {next : Except CallError α → Draw σ β} (h : Tours sheet sites body s)
    (hnext : ∀ reply, Stateless (next reply)) : Tours sheet sites (attempt body >>= next) s := by
  refine Comes.attempting h (fun reply t ht => ?_) fun t ht => ⟨.inl rfl, ht.journal⟩
  have hback := ht.ancestors.resolve_left (by cases reply <;> nofun)
  refine (hnext reply t).mono fun result u hu => ?_
  have hall := ht.trans hback (hu.toured sheet [] result)
  rw [List.append_nil] at hall
  exact hall

theorem tours_contain {body : Draw σ Unit} (source report : String) (e : Element)
    (h : Tours sheet sites body s) : Tours sheet sites (contain source report e body) s := by
  refine tours_attempting h fun reply => ?_
  cases reply with
  | ok _ => exact fun s => ⟨.ok (), s, rfl, .refl s⟩
  | error err => exact (stateless_log _ _ _).bind fun _ => stateless_trace _

theorem tours_within {e : Element}
    (h : Tours sheet sites body { s with ancestors := s.ancestors ++ [e] }) :
    Tours sheet sites (within e body) s := by
  refine Comes.within (h.mono fun outcome t ht => ?_)
  obtain ⟨hback, htour⟩ := ht
  have htaken : t.ancestors = s.ancestors ++ [e] → t.ancestors.dropLast = s.ancestors := by
    intro hsame
    rw [hsame, List.dropLast_concat]
  rcases outcome with (err | _) | a
  · exact ⟨.inr (htaken (hback.resolve_left nofun)), htour⟩
  · exact ⟨.inl rfl, htour⟩
  · exact ⟨.inr (htaken (hback.resolve_left nofun)), htour⟩

end Draw

/-! ### Elements -/

section Entering

variable {sheet : Sheet} {sites : List Site} {s t : Scene σ} {outcome : Except Fault α}

theorem Scene.Toured.entering (e : Element) (hnone : seedOf? e = none)
    (h : (s.entering e (sheet.styleOf e s.ancestors).value).Toured sheet sites outcome t) :
    s.Toured sheet (⟨s.ancestors, e⟩ :: sites) outcome t := by
  obtain ⟨events, hjournal, htour⟩ := h.journal
  refine ⟨h.ancestors,
    entrance e s.ancestors (sheet.styleOf e s.ancestors).value ++ events, ?_, ?_⟩
  · rw [hjournal, Scene.entering, List.append_assoc]
  · exact .passed ⟨s.ancestors, e⟩ hnone (.noted _ rfl htour)

theorem Scene.Tended.entering (e : Element) (seed : WidgetValue) (hseed : seedOf? e = some seed)
    (h : (s.entering e (sheet.styleOf e s.ancestors).value).Tended e seed t) :
    s.Toured sheet (⟨s.ancestors, e⟩ :: sites) outcome t := by
  obtain ⟨events, hjournal, htends⟩ := h.journal
  -- The record that stands between the entrance and the visit hands nothing over.
  have hown := htends.append [.logged ⟨.trace, widgetSource, s!"render: {e.tag}"⟩] []
    (List.forall_mem_singleton.2 rfl) fun _ hev => absurd hev List.not_mem_nil
  rw [List.append_nil] at hown
  have htour : Tour sheet (⟨s.ancestors, e⟩ :: sites) s.store _ t.store :=
    .tended ⟨s.ancestors, e⟩ seed _ hseed hown (tour_nil sites t.store)
  rw [List.append_nil] at htour
  refine ⟨.inr h.ancestors,
    entrance e s.ancestors (sheet.styleOf e s.ancestors).value ++ events, ?_, htour⟩
  rw [hjournal, Scene.entering, List.append_assoc]

end Entering

section Elements

variable (stage : Stage σ)

theorem tours_window (e : Element) (style : ComputedStyle) (children : Draw σ Unit)
    (sites : List Site) (s : Scene σ)
    (hchildren : ∀ t : Scene σ, t.ancestors = s.ancestors →
      Draw.Tours stage.sheet sites children t) :
    Draw.Tours stage.sheet sites (drawWindow stage e style children) s := by
  have hrules := Draw.rules_stateless stage.backend
  rw [drawWindow_eq]
  refine Draw.Stateless.bind_tours (hrules.setWindowSize (k := .anywhere) style) fun _ t ht => ?_
  refine Draw.Stateless.bind_tours (hrules.pushColors (k := .anywhere) _) fun n u hu => ?_
  have hbegun := hrules.attempt (k := .anywhere) (hrules.issue (k := .anywhere)
    (.beginWindow ((e.attribute? "title").getD "Window") stage.config.windowFlags) rfl)
  refine Draw.Stateless.bind_tours hbegun fun opened v hv => ?_
  have hinside : Draw.Tours stage.sheet sites (inWindow e children opened) v := by
    rcases opened with err | _ | _
    · exact (Draw.stateless_pure ()).tours v
    · exact (Draw.stateless_pure ()).tours v
    · exact Draw.tours_contain _ _ e (hchildren v (hv.trans (hu.trans ht)))
  exact Draw.tours_bind_stateless hinside fun _ =>
    hrules.closeWindow (k := .anywhere) n opened fun _ _ => trivial

/-- An entered element tours its own site and then, if it comes to them, those of its children. -/
theorem comes_manner (e : Element) (children : Draw σ Unit) (s : Scene σ)
    (hchildren : ∀ t : Scene σ,
      Draw.Tours stage.sheet (Node.sitesEach e.children t.ancestors) children t)
    (m : Manner) (hseed : seedOf? e = m.seed?) :
    Draw.Comes (m.draw stage e (stage.sheet.styleOf e s.ancestors).value children)
      (s.entering e (stage.sheet.styleOf e s.ancestors).value) fun outcome t =>
        s.Toured stage.sheet (e.sites s.ancestors) outcome t := by
  have hrules := Draw.rules_stateless stage.backend
  rw [e.sites_eq]
  have hwithin : ∀ t : Scene σ, t.ancestors = s.ancestors →
      Draw.Tours stage.sheet (Node.sitesEach e.children (s.ancestors ++ [e]))
        (Draw.within e children) t := by
    intro t ht
    rw [← ht]
    exact Draw.tours_within (hchildren _)
  have hpassed : seedOf? e = none → ∀ {body : Draw σ Unit},
      Draw.Tours stage.sheet (Node.sitesEach e.children (s.ancestors ++ [e])) body
        (s.entering e (stage.sheet.styleOf e s.ancestors).value) →
      Draw.Comes body (s.entering e (stage.sheet.styleOf e s.ancestors).value) fun outcome t =>
        s.Toured stage.sheet (⟨s.ancestors, e⟩ ::
          Node.sitesEach e.children (s.ancestors ++ [e])) outcome t :=
    fun hnone _ h => h.mono fun _ _ ht => ht.entering e hnone
  cases m with
  | nothing => exact hpassed hseed ((Draw.stateless_pure ()).tours _)
  | warning => exact hpassed hseed ((Draw.stateless_log _ _ _).tours _)
  | inside => exact hpassed hseed (hwithin _ rfl)
  | window => exact hpassed hseed (tours_window stage e _ _ _ _ hwithin)
  | button => exact hpassed hseed ((hrules.drawButton (k := .anywhere) e _).tours _)
  | call c _ haside => exact hpassed hseed ((hrules.tell (k := .anywhere) c haside).tours _)
  | field f => exact (comes_field stage e _ _ f).mono fun _ _ ht => ht.entering e _ hseed

theorem tours_widget (e : Element) (children : Draw σ Unit) (s : Scene σ)
    (hchildren : ∀ t : Scene σ,
      Draw.Tours stage.sheet (Node.sitesEach e.children t.ancestors) children t) :
    Draw.Tours stage.sheet (e.sites s.ancestors)
      (drawWidget stage e (stage.sheet.styleOf e s.ancestors).value children) s := by
  rw [drawWidget_eq]
  exact Draw.Comes.entering (comes_manner stage e children s hchildren _
    (seedOf?_eq stage.config e _))

/-- An element that stands in a tree is drawn in the style of its site. -/
theorem tours_styled (source report : String) (e : Element) (children : Draw σ Unit) (s : Scene σ)
    (hchildren : ∀ t : Scene σ,
      Draw.Tours stage.sheet (Node.sitesEach e.children t.ancestors) children t) :
    Draw.Tours stage.sheet (e.sites s.ancestors) (drawStyled stage source report e children) s := by
  have hlogged := sameState_noting s
    ((stage.sheet.styleOf e s.ancestors).records.map .logged) fun ev hev => by
      obtain ⟨r, _, rfl⟩ := List.mem_map.1 hev
      rfl
  have hdrawn := tours_widget stage e children { s with
    journal := s.journal ++ (stage.sheet.styleOf e s.ancestors).records.map .logged } hchildren
  exact Draw.tours_after rfl hlogged (Draw.tours_contain _ _ e hdrawn)

theorem walk_tours : Walk stage stage fun sites body _ =>
    ∀ s, Draw.Tours stage.sheet (sites s.ancestors) body s where
  nothing s := (Draw.stateless_pure ()).tours s
  run text s := ((Draw.rules_stateless stage.backend).drawRun (k := .anywhere) text).tours s
  next h hnext s := by
    -- The rest is drawn at all only if the first has come to its end, and then in the same place.
    refine Draw.tours_bind (h s) fun _ t ht => ?_
    rw [← ht]
    exact hnext t
  element source report e _ _ h s := tours_styled stage source report e _ s h

theorem tours_document (root : Element) (s : Scene σ) :
    Draw.Tours stage.sheet (root.sites s.ancestors) (drawDocument stage root) s :=
  (walk_tours stage).document root s

end Elements

/-! ### One frame -/

namespace Renderer

variable (r : Renderer σ) (device : σ) (markup stylesheet : String)

theorem stateless_of_commentary (notes : List Event) (h : Commentary notes) :
    ∀ ev ∈ notes, ev.isStateless = true :=
  fun ev hev => ev.isStateless_of_isAside (h.asides ev hev)

theorem exists_tour (h : r.verdict markup stylesheet = .rendered) :
    ∃ sheet outcome t store, (Style.parse? r.config.validator stylesheet).value = some sheet ∧
      r.frame markup stylesheet (r.scene device) = Draw.ending outcome t ∧
        (outcome = .error .brokenOff ∨ t.ancestors = []) ∧
          Tour sheet ((Markup.parseOrShow r.config.validator markup).value.sites [])
            r.store.advance.value t.journal store ∧
            t.store = if outcome.toOption.isSome then store.sweep.value else store := by
  obtain ⟨backend, sheet, hbackend, hmarkup, hsheet⟩ :=
    r.exists_sheet_of_rendered markup stylesheet h
  obtain ⟨notes, hnotes, hframe⟩ :=
    r.frame_of_drawn markup stylesheet backend sheet hbackend hmarkup hsheet (r.scene device)
  obtain ⟨outcome, t, hdrawn, hback, events, hjournal, htour⟩ :=
    tours_document ⟨backend, r.config, sheet⟩ (Markup.parseOrShow r.config.validator markup).value
      (opened (r.scene device) notes)
  have hframe := hframe outcome t hdrawn
  -- The tour begins with what the frame notes before it comes to the document.
  have hwhole : Tour sheet ((Markup.parseOrShow r.config.validator markup).value.sites [])
      r.store.advance.value t.journal t.store := by
    rw [hjournal]
    exact htour.noting_before (.traced .started :: notes)
      (List.forall_mem_cons.2 ⟨rfl, stateless_of_commentary notes hnotes⟩)
  cases outcome with
  | error f =>
    refine ⟨sheet, _, t, t.store, hsheet, hframe, hback.imp_left ?_, hwhole, rfl⟩
    rintro ⟨⟩
    rfl
  | ok _ =>
    refine ⟨sheet, _, closed t, t.store, hsheet, hframe, .inr (hback.resolve_left nofun), ?_, rfl⟩
    refine hwhole.noting_after _ (List.forall_mem_append.2 ⟨?_, ?_⟩)
    · exact stateless_of_commentary _ (commentary_records _)
    · intro ev hev
      rcases List.mem_pair.1 hev with rfl | rfl
      · rfl
      · rfl

theorem exists_unvisited (h : r.verdict markup stylesheet ≠ .rendered) :
    ∃ t, r.frame markup stylesheet (r.scene device) =
        Draw.ending (.ok (r.verdict markup stylesheet)) t ∧
      t.ancestors = [] ∧ visits t.journal = [] ∧ t.store = r.store := by
  obtain ⟨notes, hnotes, hframe⟩ := r.frame_undrawn markup stylesheet h (r.scene device)
  refine ⟨_, hframe, rfl, ?_, rfl⟩
  have hvisits := visits_eq_nil notes fun ev hev =>
    ev.visit?_of_isStateless (stateless_of_commentary notes hnotes ev hev)
  show visits (notes ++ [.traced .ended, .traced .flushed]) = []
  rw [visits_append, hvisits]
  rfl

/-- In a frame the elements of the document are visited in order, each at the end of the chain of
its ancestors and in the style that the sheet gives it there. What the frame does to the store is
what the visited elements with a state do under the keys of their sites. At the end, unless the
backend has broken the frame off, no element is left around. -/
theorem render_tours :
    let root : Element := (Markup.parseOrShow r.config.validator markup).value
    let x : Rendering σ := (r.render device markup stylesheet).value
    (∃ outcome t, r.frame markup stylesheet (r.scene device) = Draw.ending outcome t ∧
      t.journal = x.journal ∧ (outcome = .error .brokenOff ∨ t.ancestors = [])) ∧
    (∀ y ∈ visits x.journal, Descends (y.1.ancestors ++ [y.1.element]) ∧
      [root] <+: y.1.ancestors ++ [y.1.element]) ∧
    if r.verdict markup stylesheet = .rendered then
      ∃ sheet store, (Style.parse? r.config.validator stylesheet).value = some sheet ∧
        (∃ visited : List Site, visited.Sublist (root.sites []) ∧ visits x.journal =
          visited.map fun y => (y, (sheet.styleOf y.element y.ancestors).value)) ∧
        Tour sheet (root.sites []) r.store.advance.value x.journal store ∧
        x.renderer.store = if x.status.isSome then store.sweep.value else store
    else visits x.journal = [] ∧ x.renderer.store = r.store := by
  intro root x
  by_cases h : r.verdict markup stylesheet = .rendered
  · obtain ⟨sheet, outcome, t, store, hsheet, hframe, hback, htour, hstore⟩ :=
      r.exists_tour device markup stylesheet h
    obtain ⟨hstatus, hjournal, hkept, _⟩ := r.render_of_frame device markup stylesheet hframe
    rw [← hjournal] at htour
    obtain ⟨visited, hsublist, hvisits⟩ := htour.visits_eq
    refine ⟨⟨outcome, t, hframe, hjournal.symm, hback⟩, ?_, ?_⟩
    · intro y hy
      rw [hvisits] at hy
      obtain ⟨z, hz, rfl⟩ := List.mem_map.1 hy
      exact Markup.descends_of_mem_sites root [] (List.isChain_singleton _) z
        (hsublist.subset hz)
    · rw [if_pos h]
      refine ⟨sheet, store, hsheet, ⟨visited, hsublist, hvisits⟩, htour, ?_⟩
      rw [hkept, hstore, hstatus]
  · obtain ⟨t, hframe, hback, hvisits, hstore⟩ := r.exists_unvisited device markup stylesheet h
    obtain ⟨_, hjournal, hkept, _⟩ := r.render_of_frame device markup stylesheet hframe
    rw [← hjournal] at hvisits
    refine ⟨⟨_, t, hframe, hjournal.symm, .inr hback⟩, ?_, ?_⟩
    · rw [hvisits]
      exact fun _ hy => absurd hy List.not_mem_nil
    · rw [if_neg h]
      exact ⟨hvisits, hkept.trans hstore⟩

/-- A window fails around an input that fails, and the checkbox behind them stands where it
stood. -/
example :
    let r := { (ofConfig {} : Renderer Recorder) with backend := some Recorder.backend }
    let device := (({} : Recorder).refuse "input_text_with_hint").refuse "end_window"
    let markup := "<App><Window><InputText label='a'/></Window><Checkbox label='b'/></App>"
    (visits (r.render device markup "").value.journal).map
        (fun y => (tagPath y.1.ancestors, y.1.element.tag)) =
      [("", "App"), ("App", "Window"), ("App/Window", "InputText"), ("App", "Checkbox")] := by
  decide +kernel

end Renderer

end FrameUI.Frame
