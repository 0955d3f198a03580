import FrameUI.Proofs.Frame.Visiting

/-!
# Widgets at their keys

A widget with a state reads under its key, hands over what it has read, and writes nothing but a
value that was reported to it, however its visit ends. Main statements: this is what each widget
does that keeps a value (`comes_field`), and all other parts of a drawing leave the store alone
(`rules_stateless`).
-/

namespace FrameUI.Frame

open FrameUI.Markup (Element)
open FrameUI.Style (ComputedStyle Rgba)

variable {σ α β : Type}

/-! ### Parts without a state -/

/-- Whether an event neither enters an element nor is a call that hands a value over. -/
def Event.isStateless : Event → Bool
  | entered .. => false
  | called c _ => c.handed?.isNone
  | _ => true

theorem Call.handed?_of_isAside (c : Call) (h : c.isAside = true) : c.handed? = none := by
  cases c <;> first | rfl | cases h

theorem Event.isStateless_of_isAside (ev : Event) (h : ev.isAside = true) :
    ev.isStateless = true := by
  cases ev with
  | called c reply => exact Option.isNone_iff_eq_none.2 (c.handed?_of_isAside h)
  | entered e ancestors style => cases h
  | _ => rfl

/-- A later scene of the same widgets and elements, where only stateless events have been noted. -/
structure Scene.SameState (s t : Scene σ) : Prop where
  store : t.store = s.store
  ancestors : t.ancestors = s.ancestors
  journal : ∃ events, t.journal = s.journal ++ events ∧ ∀ ev ∈ events, ev.isStateless = true

theorem Scene.SameState.refl (s : Scene σ) : s.SameState s :=
  ⟨rfl, rfl, [], (List.append_nil _).symm, fun _ h => absurd h List.not_mem_nil⟩

theorem Scene.SameState.trans {s t u : Scene σ} (h : s.SameState t) (h' : t.SameState u) :
    s.SameState u := by
  obtain ⟨events, hjournal, hevents⟩ := h.journal
  obtain ⟨more, hjournal', hmore⟩ := h'.journal
  refine ⟨h'.store.trans h.store, h'.ancestors.trans h.ancestors, events ++ more, ?_,
    List.forall_mem_append.2 ⟨hevents, hmore⟩⟩
  rw [hjournal', hjournal, List.append_assoc]

theorem sameState_noting (s : Scene σ) (events : List Event)
    (h : ∀ ev ∈ events, ev.isStateless = true) :
    s.SameState { s with journal := s.journal ++ events } := ⟨rfl, rfl, events, rfl, h⟩

theorem sameState_asked (backend : Backend σ) (c : Call) (hnone : c.handed? = none)
    (s : Scene σ) : s.SameState (Draw.asked backend c s) := by
  refine ⟨rfl, rfl, _, rfl, ?_⟩
  intro ev hev
  rcases List.mem_pair.1 hev with rfl | rfl
  · rfl
  · exact Option.isNone_iff_eq_none.2 hnone

namespace Draw

/-- A part that only notes stateless events, broken off or not. -/
def Stateless (body : Draw σ α) : Prop := ∀ s, Comes body s fun _ t => s.SameState t

theorem stateless_of_ok {body : Draw σ α} (a : α) (events : List Event)
    (h : ∀ s, body s = .ok a { s with journal := s.journal ++ events })
    (hevents : ∀ ev ∈ events, ev.isStateless = true) : Stateless body :=
  fun s => ⟨.ok a, _, h s, sameState_noting s events hevents⟩

theorem stateless_pure (a : α) : Stateless (pure a : Draw σ α) := fun s => ⟨.ok a, s, rfl, .refl s⟩

theorem stateless_log (level : Level) (source message : String) :
    Stateless (log level source message : Draw σ Unit) :=
  stateless_of_ok () _ (fun _ => rfl) (List.forall_mem_singleton.2 rfl)

theorem stateless_trace (text : String) : Stateless (trace text : Draw σ Unit) :=
  stateless_of_ok () _ (fun _ => rfl) (List.forall_mem_singleton.2 rfl)

theorem Stateless.bind {body : Draw σ α} {next : α → Draw σ β} (h : Stateless body)
    (hnext : ∀ a, Stateless (next a)) : Stateless (body >>= next) := by
  intro s
  refine (h s).bind (fun a t ht => ?_) fun _ _ ht => ht
  exact (hnext a t).mono fun _ _ hu => ht.trans hu

theorem stateless_notify (e : Element) (event : String) :
    Stateless (notify e event : Draw σ Unit) := by
  intro s
  obtain ⟨t, hrun, hstore, hancestors, events, hjournal, hruns⟩ :=
    exists_notify_eq e event s
  refine ⟨.ok (), t, hrun, hstore, hancestors, events, hjournal, fun ev hev => ?_⟩
  rcases hruns.others ev hev with haside | ⟨f, rfl⟩
  · exact ev.isStateless_of_isAside haside
  · rfl

theorem stateless_asking (backend : Backend σ) (c : Call) (hnone : c.handed? = none)
    {next : Except CallError c.Answer → Draw σ α} (hnext : ∀ reply, Stateless (next reply)) :
    Stateless (attempt (issue backend c) >>= next) := by
  intro s
  have hasked := sameState_asked backend c hnone s
  exact Comes.asking backend c
    (fun reply _ => (hnext reply _).mono fun _ _ hu => hasked.trans hu) fun _ => hasked

/-- What leaves the state of widgets alone is stateless. -/
theorem rules_stateless (backend : Backend σ) :
    StatelessRules backend fun _ _ body => Stateless body where
  pure := stateless_pure
  log := stateless_log
  notify := stateless_notify
  refused err _ _ := fun s => ⟨.error (.refused err), s, rfl, .refl s⟩
  bind := Stateless.bind
  attempting h hnext := fun s => (h s).attempting
    (fun reply t ht => (hnext reply t).mono fun _ _ hu => ht.trans hu) fun _ ht => ht
  asking c _ haside hnext := stateless_asking backend c (Call.handed?_of_isAside c haside) hnext
  pressing label _ hnext := stateless_asking backend (.button label) rfl hnext

end Draw

/-! ### What a widget does at its key -/

/-- An event of the visit to a widget: if it hands a value over, this is what was stored, unless
that is of another kind. -/
def Event.HandsOver (seed stored : WidgetValue) : Event → Prop
  | entered .. => False
  | called c _ => ∀ v, c.handed? = some v → stored.kind = seed.kind → v = stored
  | _ => True

theorem Event.handsOver_of_isStateless (seed stored : WidgetValue) (ev : Event)
    (h : ev.isStateless = true) : ev.HandsOver seed stored := by
  cases ev with
  | entered e ancestors style => cases h
  | called c reply =>
    intro v hv
    rw [Event.isStateless, hv] at h
    cases h
  | _ => trivial

theorem Call.Hands.handsOver {c : Call} {seed stored : WidgetValue} (h : c.Hands seed stored)
    (reply : Except Fault c.Answer) : (Event.called c reply).HandsOver seed stored := by
  obtain ⟨u, hu, hstored⟩ := h
  intro v hv hkind
  obtain rfl : u = v := Option.some.inj (hu.symm.trans hv)
  exact hstored hkind

/-- What a widget with a key does to the store while it notes some events. -/
structure Tends (id : String) (seed : WidgetValue) (before : Store) (events : List Event)
    (after : Store) : Prop where
  hands : ∀ ev ∈ events, ev.HandsOver seed (before.read id seed).1
  writes : after = (before.read id seed).2 ∨ ∃ ev ∈ events, ∃ v, ev.reported? = some v ∧
    after = (before.read id seed).2.write id v

theorem Tends.append {id : String} {seed : WidgetValue} {before after : Store}
    {events : List Event} (h : Tends id seed before events after) (earlier later : List Event)
    (hearlier : ∀ ev ∈ earlier, ev.isStateless = true)
    (hlater : ∀ ev ∈ later, ev.isStateless = true) :
    Tends id seed before (earlier ++ events ++ later) after where
  hands := by
    have hnone := fun ev => Event.handsOver_of_isStateless seed (before.read id seed).1 ev
    refine List.forall_mem_append.2 ⟨List.forall_mem_append.2 ⟨?_, h.hands⟩, ?_⟩
    · exact fun ev hev => hnone ev (hearlier ev hev)
    · exact fun ev hev => hnone ev (hlater ev hev)
  writes := by
    rcases h.writes with hkept | ⟨ev, hev, v, hv, hwritten⟩
    · exact .inl hkept
    · exact .inr ⟨ev, List.mem_append_left _ (List.mem_append_right _ hev), v, hv, hwritten⟩

/-- A later scene, between which and the first only the visit to an element lies. -/
structure Scene.Tended (e : Element) (seed : WidgetValue) (s t : Scene σ) : Prop where
  ancestors : t.ancestors = s.ancestors
  journal : ∃ events, t.journal = s.journal ++ events ∧
    Tends (stateKey e s.ancestors) seed s.store events t.store

/-- A scene of the visit to an element, after its state has been read and before it is written. -/
structure Scene.Reads (e : Element) (seed : WidgetValue) (s t : Scene σ) (events : List Event) :
    Prop where
  ancestors : t.ancestors = s.ancestors
  store : t.store = (s.store.read (stateKey e s.ancestors) seed).2
  journal : t.journal = s.journal ++ events
  hands : ∀ ev ∈ events, ev.HandsOver seed (s.store.read (stateKey e s.ancestors) seed).1

section Visit

variable {e : Element} {seed : WidgetValue} {s t u : Scene σ} {events : List Event}

theorem reads_afterReading (e : Element) (seed : WidgetValue) (s : Scene σ) :
    s.Reads e seed (s.afterReading e seed) [] :=
  ⟨rfl, rfl, (List.append_nil _).symm, fun _ h => absurd h List.not_mem_nil⟩

theorem Scene.Reads.later (h : s.Reads e seed t events) (h' : t.SameState u) :
    ∃ more, s.Reads e seed u (events ++ more) := by
  obtain ⟨more, hjournal, hmore⟩ := h'.journal
  refine ⟨more, h'.ancestors.trans h.ancestors, h'.store.trans h.store, ?_,
    List.forall_mem_append.2 ⟨h.hands, fun ev hev => ?_⟩⟩
  · rw [hjournal, h.journal, List.append_assoc]
  · exact ev.handsOver_of_isStateless _ _ (hmore ev hev)

theorem Scene.Reads.asked (h : s.Reads e seed t events) (backend : Backend σ) (c : Call)
    (hhands : c.Hands seed (s.store.read (stateKey e s.ancestors) seed).1) :
    s.Reads e seed (Draw.asked backend c t)
      (events ++ [.traced (.line c.traceLine), .called c (backend.reply c t.device)]) := by
  refine ⟨h.ancestors, h.store, ?_, List.forall_mem_append.2 ⟨h.hands, fun ev hev => ?_⟩⟩
  · rw [Draw.asked, h.journal, List.append_assoc]
  · rcases List.mem_pair.1 hev with rfl | rfl
    · trivial
    · exact hhands.handsOver _

theorem Scene.Reads.tended (h : s.Reads e seed t events) : s.Tended e seed t :=
  ⟨h.ancestors, events, h.journal, h.hands, .inl h.store⟩

theorem Scene.Reads.written (h : s.Reads e seed t events) (v : WidgetValue)
    (hreported : ∃ ev ∈ events, ev.reported? = some v) :
    s.Tended e seed { t with store := t.store.write (stateKey e s.ancestors) v } := by
  obtain ⟨ev, hev, hv⟩ := hreported
  refine ⟨h.ancestors, events, h.journal, h.hands, .inr ⟨ev, hev, v, hv, ?_⟩⟩
  rw [h.store]

theorem Scene.Tended.later (h : s.Tended e seed t) (h' : t.SameState u) :
    s.Tended e seed u := by
  obtain ⟨events, hjournal, htends⟩ := h.journal
  obtain ⟨more, hjournal', hmore⟩ := h'.journal
  refine ⟨h'.ancestors.trans h.ancestors, events ++ more, ?_, ?_⟩
  · rw [hjournal', hjournal, List.append_assoc]
  · rw [h'.store]
    exact htends.append [] more (fun _ hev => absurd hev List.not_mem_nil) hmore

theorem Scene.Reads.comes (h : s.Reads e seed t events) {body : Draw σ α}
    (hbody : Draw.Stateless body) : Draw.Comes body t fun _ u => s.Tended e seed u :=
  (hbody t).mono fun _ _ hu => h.tended.later hu

/-- A reported change is written, and nothing else after it. -/
theorem Scene.Reads.comes_writing (h : s.Reads e seed t events) (v : WidgetValue)
    (hreported : ∃ ev ∈ events, ev.reported? = some v) {next : Unit → Draw σ α}
    (hnext : Draw.Stateless (next ())) :
    Draw.Comes (Draw.writeState (stateKey e s.ancestors) v >>= next) t fun _ u =>
      s.Tended e seed u :=
  Draw.Comes.after rfl ((hnext _).mono fun _ _ hu => (h.written v hreported).later hu)

end Visit

/-! ### The widgets -/

section Replies

variable (stage : Stage σ) {e : Element} {seed : WidgetValue} {s t : Scene σ}
  {events : List Event} {c : Call} {reply : Except CallError c.Answer}
  (hreads : s.Reads e seed t events) (hcalled : .called c (Draw.replyOf reply) ∈ events)

include hreads hcalled

/-- Only a reported change is written, whatever stateless part follows. -/
theorem comes_heeding {next : Draw σ Unit} (hnext : Draw.Stateless next) :
    Draw.Comes (Draw.heed e (stateKey e s.ancestors) c reply >>= fun _ => next) t fun _ u =>
      s.Tended e seed u := by
  cases hreported : (Event.called c (Draw.replyOf reply)).reported? with
  | none =>
    rw [Draw.heed_of_none e _ hreported]
    exact hreads.comes ((Draw.stateless_pure ()).bind fun _ => hnext)
  | some v =>
    rw [Draw.heed_of_some e _ hreported, bind_assoc]
    exact hreads.comes_writing v ⟨_, hcalled, hreported⟩
      ((Draw.stateless_notify e "onChange").bind fun _ => hnext)

/-- A widget that pops its colours before it heeds the reply. -/
theorem comes_heeding_last (n : Nat) :
    Draw.Comes (do
      popColors stage n
      let _ ← Draw.rethrow reply
      Draw.heed e (stateKey e s.ancestors) c reply) t fun _ u => s.Tended e seed u := by
  have hrules := Draw.rules_stateless stage.backend
  refine (hrules.popColors (k := .anywhere) n t).bind (fun _ u hu => ?_)
    fun _ u hu => hreads.tended.later hu
  obtain ⟨more, hmore⟩ := hreads.later hu
  cases reply with
  | error err => exact hmore.comes (hrules.refused (k := .anywhere) err _ trivial)
  | ok a =>
    have hheeded := comes_heeding hmore (List.mem_append_left _ hcalled) (Draw.stateless_pure ())
    rw [bind_pure] at hheeded
    exact Draw.Comes.after (t := u) (a := a) rfl hheeded

end Replies

section Fields

variable (stage : Stage σ) (e : Element) (style : ComputedStyle) (s : Scene σ)

/-- The call of a widget whose state has been read, in its colours. -/
theorem comes_painted (seed : WidgetValue) (t : Scene σ) (events : List Event)
    (hreads : s.Reads e seed t events) (colors : List (ColorSlot × Rgba)) (popsFirst : Bool)
    (c : Call) (hhands : c.Hands seed (s.store.read (stateKey e s.ancestors) seed).1) :
    Draw.Comes (painted stage colors popsFirst c (Draw.heed e (stateKey e s.ancestors) c)) t
      fun _ u => s.Tended e seed u := by
  have hrules := Draw.rules_stateless stage.backend
  refine (hrules.pushColors (k := .anywhere) colors t).bind (fun n u hu => ?_)
    fun _ u hu => hreads.tended.later hu
  obtain ⟨more, hmore⟩ := hreads.later hu
  have hasked := hmore.asked stage.backend c hhands
  refine Draw.Comes.asking stage.backend c (fun reply hreply => ?_) fun _ => hasked.tended
  rw [hreply] at hasked
  have hcalled := List.mem_append_right (events ++ more)
    (List.mem_cons_of_mem (.traced (.line c.traceLine)) (List.mem_singleton_self
      (.called c (Draw.replyOf reply) : Event)))
  cases popsFirst with
  | true => exact comes_heeding_last stage hasked hcalled n
  | false =>
    exact comes_heeding hasked hcalled
      (hrules.close (k := .anywhere) n reply fun _ _ => trivial)

/-- A widget that keeps a value does nothing to the store but what is its own under its key. -/
theorem comes_field (f : Field) :
    Draw.Comes (f.draw stage e style) s fun _ t => s.Tended e f.seed t := by
  have hrules := Draw.rules_stateless stage.backend
  have hreads := reads_afterReading e f.seed s
  refine Draw.Comes.after (t := s) rfl ?_
  refine Draw.Comes.after (t := s.afterReading e f.seed) rfl ?_
  refine (hrules.setWidth (k := .anywhere) f style _).bind (fun _ t ht => ?_)
    fun _ t ht => hreads.tended.later ht
  obtain ⟨sized, hsized⟩ := hreads.later ht
  exact comes_painted stage e s f.seed t _ hsized f.colors f.popsFirst _ (f.hands _)

end Fields

end FrameUI.Frame
