import FrameUI.Proofs.Frame.Rules

/-!
# Visits to widgets

A visit to a widget is one telling call among asides, with a write and a handler if the call
reports a change. Main statements: how the visits of widgets end (`ends_field`, `ends_button`).
-/

namespace FrameUI.Frame

open FrameUI.Markup (Element)
open FrameUI.Style (ComputedStyle Rgba)

variable {σ α : Type}

/-! ### Handlers -/

/-- An event runs the handler that an element names for it, if it is registered. -/
theorem exists_notify_eq (e : Element) (event : String) (s : Scene σ) :
    ∃ t, Draw.notify e event s = .ok () t ∧ t.store = s.store ∧ t.ancestors = s.ancestors ∧
      ∃ events, t.journal = s.journal ++ events ∧ Runs events (s.handlers.runFor e event) := by
  unfold Draw.notify Handlers.runFor
  cases e.attribute? event with
  | none => exact ⟨s, rfl, rfl, rfl, [], (List.append_nil _).symm, asides_nil.runs⟩
  | some name =>
    rw [Option.bind_some]
    refine ⟨_, Draw.dispatch_eq name s, ?_⟩
    cases hfound : s.handlers.table.find? name with
    | none =>
      have hmissing : (s.handlers.dispatch name).run = pure (.error ⟨name⟩) := by
        rw [Handlers.dispatch_of_none _ _ hfound]
        rfl
      rw [dispatchEffect, hmissing]
      exact ⟨rfl, rfl, _, rfl, asides_records [⟨.warn, "trema::context", _⟩] |>.runs⟩
    | some handler =>
      have hran := Handlers.outcome_dispatch_of_some _ _ _ hfound
      unfold Checked.outcome at hran
      rw [dispatchEffect, hran]
      refine ⟨rfl, rfl, _, rfl, ?_⟩
      exact (asides_records _).runs.append (runs_map_fired [⟨handler.label, handler.runs + 1⟩])

/-! ### Widgets with a state -/

/-- How a visit ends to a widget whose state is kept under a key, from the scene in which the
state has been read: it fails before the call, or the call reports no change or one that is not
written, or a change is written and announced. Only a widget that pops its colours first can
fail to write a change, and only if the pop is refused. -/
inductive Served (popsFirst : Bool) (id : String) (seed stored : WidgetValue) (e : Element)
    (s t : Scene σ) : Prop
  | failed (events : List Event) : s.Later t events → Asides events →
      Served popsFirst id seed stored e s t
  | kept (before after : List Event) (c : Call) (reply : Except Fault c.Answer) :
      s.Later t (before ++ .called c reply :: after) → Asides before → Asides after →
      c.Hands seed stored →
      (∀ v, (Event.called c reply).reported? = some v →
        popsFirst = true ∧ ∃ ev ∈ after, ev.refusesPop = true) →
      Served popsFirst id seed stored e s t
  | changed (before after : List Event) (c : Call) (reply : Except Fault c.Answer)
      (v : WidgetValue) :
      t.store = s.store.write id v → t.ancestors = s.ancestors →
      t.journal = s.journal ++ (before ++ .called c reply :: after) → Asides before →
      Runs after (s.handlers.runFor e "onChange") → c.Hands seed stored →
      (Event.called c reply).reported? = some v → v.kind = seed.kind →
      Served popsFirst id seed stored e s t

theorem reported?_eq_none_of_pops {popsFirst : Bool} {c : Call} {reply : Except Fault c.Answer}
    {after : List Event}
    (hlost : ∀ v, (Event.called c reply).reported? = some v →
      popsFirst = true ∧ ∃ ev ∈ after, ev.refusesPop = true)
    (hpops : popsFirst = true → PopsAccepted after) :
    (Event.called c reply).reported? = none := by
  cases hreported : (Event.called c reply).reported? with
  | none => rfl
  | some v =>
    obtain ⟨hfirst, ev, hev, hrefused⟩ := hlost v hreported
    rw [hpops hfirst ev hev] at hrefused
    cases hrefused

/-- The scene in which the state of an element has been read. -/
def Scene.afterReading (s : Scene σ) (e : Element) (seed : WidgetValue) : Scene σ :=
  { s with store := (s.store.read (stateKey e s.ancestors) seed).2 }

/-- How the visit of an element ends whose state has not been read yet. -/
abbrev Visits (popsFirst : Bool) (seed : WidgetValue) (e : Element) (s t : Scene σ) : Prop :=
  Served popsFirst (stateKey e s.ancestors) seed
    (s.store.read (stateKey e s.ancestors) seed).1 e (s.afterReading e seed) t

/-- A part that writes a change and announces it, and is silent otherwise. -/
def Announces (e : Element) (id : String) (v : WidgetValue) (body : Draw σ Unit) : Prop :=
  ∀ s, Draw.Ends body s fun _ t => t.store = s.store.write id v ∧ t.ancestors = s.ancestors ∧
    ∃ events, t.journal = s.journal ++ events ∧ Runs events (s.handlers.runFor e "onChange")

theorem announces_last (e : Element) (id : String) (v : WidgetValue) :
    Announces e id v (do
      Draw.writeState id v
      Draw.notify e "onChange" : Draw σ Unit) := by
  intro s
  refine Draw.Ends.after _ _ s { s with store := s.store.write id v } () _ rfl ?_
  obtain ⟨t, hrun, hparts⟩ := exists_notify_eq e "onChange" { s with store := s.store.write id v }
  exact Draw.Ends.of_ok _ _ t () _ hrun hparts

theorem announces_before (e : Element) (id : String) (v : WidgetValue) (next : Draw σ Unit)
    (hnext : Draw.Idles next) :
    Announces e id v (do
      Draw.writeState id v
      Draw.notify e "onChange"
      next) := by
  intro s
  refine Draw.Ends.after _ _ s { s with store := s.store.write id v } () _ rfl ?_
  obtain ⟨t, hrun, hstore, hancestors, events, hjournal, hruns⟩ :=
    exists_notify_eq e "onChange" { s with store := s.store.write id v }
  refine Draw.Ends.after _ _ _ t () _ hrun ?_
  apply Draw.Ends.mono _ t _ _ (hnext t)
  intro _ u hparts
  obtain ⟨more, hlater, hasides⟩ := hparts
  refine ⟨hlater.store.trans hstore, hlater.ancestors.trans hancestors, events ++ more, ?_, ?_⟩
  · rw [hlater.journal, hjournal, List.append_assoc]
  · have hall := hruns.append hasides.runs
    rw [List.append_nil] at hall
    exact hall

section Served

variable (popsFirst : Bool) (id : String) (seed stored : WidgetValue) (e : Element)
  (s t : Scene σ) (before between : List Event) (c : Call) (reply : Except Fault c.Answer)
  (hlater : s.Later t (before ++ .called c reply :: between)) (hbefore : Asides before)
  (hbetween : Asides between) (hhands : c.Hands seed stored)

include hlater hbefore hbetween hhands

theorem ends_kept (body : Draw σ Unit) (hbody : Draw.Idles body)
    (hnone : (Event.called c reply).reported? = none) :
    Draw.Ends body t fun _ u => Served popsFirst id seed stored e s u := by
  apply Draw.Ends.mono body t _ _ (hbody t)
  intro _ u hparts
  obtain ⟨after, hmore, hafter⟩ := hparts
  have hall := hlater.trans hmore
  rw [List.append_assoc, List.cons_append] at hall
  refine .kept before (between ++ after) c reply hall hbefore ?_ hhands ?_
  · exact (asides_append _ _).2 ⟨hbetween, hafter⟩
  · intro v hv
    rw [hnone] at hv
    cases hv

theorem ends_changed (v : WidgetValue) (body : Draw σ Unit) (hbody : Announces e id v body)
    (hreported : (Event.called c reply).reported? = some v) (hkind : v.kind = seed.kind) :
    Draw.Ends body t fun _ u => Served popsFirst id seed stored e s u := by
  apply Draw.Ends.mono _ t _ _ (hbody t)
  intro _ u hparts
  obtain ⟨hstore, hancestors, after, hjournal, hruns⟩ := hparts
  rw [hlater.store] at hstore
  rw [hlater.handlers] at hruns
  refine .changed before (between ++ after) c reply v hstore
    (hancestors.trans hlater.ancestors) ?_ hbefore (hbetween.runs.append hruns) hhands hreported
    hkind
  rw [hjournal, hlater.journal, List.append_assoc, List.append_assoc, List.cons_append]

end Served

/-- What the visit of a button notes, given what its handler notes: it fails before the call, or
the call does not come to a click that counts, or a click runs the handler. -/
inductive Pressed (fs : List Firing) : List Event → Prop
  | failed (events : List Event) : Asides events → Pressed fs events
  | unclicked (before after : List Event) (label : String) (reply : Except Fault Bool) :
      Asides before → Asides after →
      (reply = .ok true → ∃ ev ∈ after, ev.refusesPop = true) →
      Pressed fs (before ++ .called (.button label) reply :: after)
  | clicked (before after : List Event) (label : String) : Asides before → Runs after fs →
      Pressed fs (before ++ .called (.button label) (.ok true) :: after)

/-- How the visit of a button ends: the state stays. -/
def PressedIn (e : Element) (s t : Scene σ) : Prop :=
  t.store = s.store ∧ t.ancestors = s.ancestors ∧ ∃ events, t.journal = s.journal ++ events ∧
    Pressed (s.handlers.runFor e "onClick") events

theorem Scene.Later.pressedIn {e : Element} {s t : Scene σ} {events : List Event}
    (h : s.Later t events) (hpressed : Pressed (s.handlers.runFor e "onClick") events) :
    PressedIn e s t :=
  ⟨h.store, h.ancestors, events, h.journal, hpressed⟩

/-! ### Widgets in colours -/

section Widgets

variable (stage : Stage σ) (e : Element) (style : ComputedStyle) (s : Scene σ)

/-- Pops that fail were refused. -/
theorem notes_popColors (n : Nat) :
    Draw.Notes (popColors stage n) fun outcome events =>
      Asides events ∧ ∀ err, outcome = .error err → ∃ ev ∈ events, ev.refusesPop = true := by
  unfold popColors
  split
  · exact Draw.notes_pure _ _ ⟨asides_nil, nofun⟩
  · apply Draw.Notes.mono _ _ _ (Draw.notes_issue stage.backend (.popColors n))
    intro outcome events heq
    rw [heq]
    refine ⟨asides_issued _ _ rfl, ?_⟩
    intro err herr
    subst herr
    exact ⟨_, List.mem_cons_of_mem _ List.mem_cons_self, rfl⟩

/-- The front of a widget that is drawn in colours: all before the reply to its call. -/
theorem ends_asking (t : Scene σ) (earlier : List Event) (hearlier : s.Later t earlier)
    (hasides : Asides earlier) (colors : List (ColorSlot × Rgba)) (c : Call)
    (next : Nat → Except CallError c.Answer → Draw σ α) (Q : Except CallError α → Scene σ → Prop)
    (hcalled : ∀ n reply u before, s.Later u (before ++ [.called c (Draw.replyOf reply)]) →
      Asides before → Draw.Ends (next n reply) u Q)
    (hfailed : ∀ err u events, s.Later u events → Asides events → Q (.error err) u) :
    Draw.Ends (do
      let pushed ← pushColors stage colors
      let reply ← Draw.attempt (Draw.issue stage.backend c)
      next pushed reply) t Q := by
  have hpushes := (Draw.rules_idles stage.backend).pushColors (k := .anywhere) colors
  apply Draw.Notes.bind_ends _ _ _ t Q hpushes
  · intro n u pushes hpushed hpushes
    have hissue := Draw.Notes.attempt _ _ (Draw.notes_issue stage.backend c)
    apply Draw.Notes.bind_ends _ _ _ u Q hissue
    · intro reply v events hlater hparts
      obtain ⟨r, hr, rfl⟩ := hparts
      obtain rfl : reply = r := Except.ok.inj hr
      have hline : Asides [.traced (.line c.traceLine)] := List.forall_mem_singleton.2 rfl
      refine hcalled n reply v (earlier ++ pushes ++ [.traced (.line c.traceLine)]) ?_
        ((asides_append _ _).2 ⟨(asides_append _ _).2 ⟨hasides, hpushes⟩, hline⟩)
      have hall := (hearlier.trans hpushed).trans hlater
      rw [List.append_assoc]
      exact hall
    · intro err v events _ hparts
      obtain ⟨_, hr, _⟩ := hparts
      cases hr
  · intro err u more hmore hasides'
    exact hfailed err u _ (hearlier.trans hmore) ((asides_append _ _).2 ⟨hasides, hasides'⟩)

section Replies

variable {id : String} {seed stored : WidgetValue} {s : Scene σ} {t : Scene σ}
  {before : List Event} {c : Call} {reply : Except CallError c.Answer}
  (hlater : s.Later t (before ++ [.called c (Draw.replyOf reply)])) (hbefore : Asides before)
  (hhands : c.Hands seed stored)
  (hkind : ∀ v, (Event.called c (Draw.replyOf reply)).reported? = some v → v.kind = seed.kind)

include hlater hbefore hhands hkind

/-- A widget that heeds the reply before it pops its colours. -/
theorem ends_heeding_first (n : Nat) :
    Draw.Ends (do
      Draw.heed e id c reply
      popColors stage n
      let _ ← Draw.rethrow reply) t fun _ u => Served false id seed stored e s u := by
  have hclose := (Draw.rules_idles stage.backend).close (k := .anywhere) n reply fun _ _ => trivial
  cases hreported : (Event.called c (Draw.replyOf reply)).reported? with
  | none =>
    rw [Draw.heed_of_none e id hreported]
    exact ends_kept _ _ _ _ e s t before [] c _ hlater hbefore asides_nil hhands _ hclose hreported
  | some v =>
    rw [Draw.heed_of_some e id hreported, bind_assoc]
    exact ends_changed _ _ _ _ e s t before [] c _ hlater hbefore asides_nil hhands v _
      (announces_before e id v _ hclose) hreported (hkind v hreported)

/-- A widget that pops its colours before it heeds the reply. -/
theorem ends_heeding_last (n : Nat) :
    Draw.Ends (do
      popColors stage n
      let _ ← Draw.rethrow reply
      Draw.heed e id c reply) t fun _ u => Served true id seed stored e s u := by
  apply Draw.Notes.bind_ends _ _ _ _ _ (notes_popColors stage n)
  · intro _ u pops hpops hparts
    have hall := hlater.trans hpops
    rw [List.append_assoc] at hall
    cases reply with
    | error err =>
      exact ends_kept _ _ _ _ e s u before pops c _ hall hbefore hparts.1 hhands _
        (Draw.idles_refused err _) (reported?_of_error c _)
    | ok a =>
      refine Draw.Ends.after _ _ u u a _ rfl ?_
      cases hreported : (Event.called c (Draw.replyOf (.ok a))).reported? with
      | none =>
        rw [Draw.heed_of_none e id hreported]
        exact ends_kept _ _ _ _ e s u before pops c _ hall hbefore hparts.1 hhands _
          (Draw.idles_pure ()) hreported
      | some v =>
        rw [Draw.heed_of_some e id hreported]
        exact ends_changed _ _ _ _ e s u before pops c _ hall hbefore hparts.1 hhands v _
          (announces_last e id v) hreported (hkind v hreported)
  · intro err u pops hpops hparts
    have hall := hlater.trans hpops
    rw [List.append_assoc] at hall
    exact .kept before pops c _ hall hbefore hparts.1 hhands fun v _ => ⟨rfl, hparts.2 err rfl⟩

end Replies

/-- The visit of a widget that keeps a value. -/
theorem ends_field (f : Field) :
    Draw.Ends (f.draw stage e style) s fun _ t => Visits f.popsFirst f.seed e s t := by
  have hwidth := (Draw.rules_idles stage.backend).setWidth (k := .anywhere) f style
  refine Draw.Ends.after _ _ s s (stateKey e s.ancestors) _ rfl ?_
  refine Draw.Ends.after _ _ s (s.afterReading e f.seed) _ _ rfl ?_
  apply Draw.Notes.bind_ends _ _ _ _ _ hwidth
  · intro _ t earlier hearlier hasides
    refine ends_asking stage _ t earlier hearlier hasides _ _ _ _ ?_ ?_
    · intro n reply u before hlater hbefore
      have hhands := f.hands (s.store.read (stateKey e s.ancestors) f.seed).1
      cases f.popsFirst with
      | false => exact ends_heeding_first stage e hlater hbefore hhands (f.reports _ _) n
      | true => exact ends_heeding_last stage e hlater hbefore hhands (f.reports _ _) n
    · intro err u events hlater hasides
      exact .failed events hlater hasides
  · intro err t events hlater hasides
    exact .failed events hlater hasides

theorem ends_pressed (t : Scene σ) (before : List Event) (n : Nat) (label : String)
    (reply : Except CallError Bool)
    (hcalled : s.Later t (before ++ [.called (.button label) (Draw.replyOf reply)]))
    (hbefore : Asides before) :
    Draw.Ends (do
      popColors stage n
      let _ ← Draw.rethrow reply
      Draw.heedClick e reply) t fun _ u => PressedIn e s u := by
  apply Draw.Notes.bind_ends _ _ _ _ _ (notes_popColors stage n)
  · intro _ u pops hpops hparts
    have hpopped := hcalled.trans hpops
    rw [List.append_assoc, List.singleton_append] at hpopped
    rcases reply with err | clicked
    · refine Draw.Ends.of_refused _ u u err _ rfl (hpopped.pressedIn ?_)
      exact .unclicked before pops _ _ hbefore hparts.1 nofun
    · refine Draw.Ends.after _ _ u u clicked _ rfl ?_
      cases clicked with
      | false =>
        refine Draw.ends_pure () u _ (hpopped.pressedIn ?_)
        exact .unclicked before pops _ _ hbefore hparts.1 nofun
      | true =>
        obtain ⟨v, hrun, hstore, hancestors, events, hjournal, hruns⟩ :=
          exists_notify_eq e "onClick" u
        rw [hpopped.handlers] at hruns
        refine Draw.Ends.of_ok _ u v () _ hrun ⟨hstore.trans hpopped.store,
          hancestors.trans hpopped.ancestors, _, ?_,
          .clicked before (pops ++ events) label hbefore (hparts.1.runs.append hruns)⟩
        rw [hjournal, hpopped.journal, List.append_assoc, List.append_assoc, List.cons_append]
        rfl
  · intro err u pops hpops hparts
    have hpopped := hcalled.trans hpops
    rw [List.append_assoc, List.singleton_append] at hpopped
    exact hpopped.pressedIn (.unclicked before pops _ _ hbefore hparts.1 fun _ => hparts.2 err rfl)

theorem ends_button :
    Draw.Ends (drawButton stage e style) s fun _ t => PressedIn e s t := by
  have hwidth := (Draw.rules_idles stage.backend).setItemWidth (k := .anywhere) style
  rw [drawButton_eq]
  apply Draw.Notes.bind_ends _ _ _ _ _ hwidth
  · intro _ t earlier hearlier hasides
    refine ends_asking stage s t earlier hearlier hasides _ _ _ _ ?_ ?_
    · exact fun n reply u before hlater hbefore =>
        ends_pressed stage e s u before n _ reply hlater hbefore
    · exact fun err u events hlater hasides => hlater.pressedIn (.failed events hasides)
  · exact fun err t events hlater hasides => hlater.pressedIn (.failed events hasides)

end Widgets

end FrameUI.Frame
