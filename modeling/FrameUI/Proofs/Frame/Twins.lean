import FrameUI.Proofs.Frame.Echoes
import FrameUI.Proofs.Frame.Endings
import FrameUI.Proofs.Frame.Manners

/-!
# Two frames side by side

Two backends draw the same frame, and the second refuses some calls to which the first answers
with nothing of note. `Pairs` is a judgement on a part of the drawing under the one and a part
under the other: whatever the first comes to, the second comes to an outcome in a relation to
it, and leaves a twin of its scene. There are rules for the ways in which parts are put together,
and for what a scene offers.
-/

namespace FrameUI.Frame

open FrameUI.Markup (Element Tag)
open FrameUI.Style (ComputedStyle)

variable {σ τ α β γ δ : Type}

/-! ### Twins -/

/-- A scene of one frame and the scene of the other at the same point. The second backend
started with the device `start` and has been asked the calls of the first journal. -/
structure Twins (b : Backend τ) (start : τ) (s : Scene σ) (t : Scene τ) : Prop where
  store : t.store = s.store
  handlers : t.handlers = s.handlers
  ancestors : t.ancestors = s.ancestors
  device : t.device = b.hearAll start s.journal
  deeds : deeds t.journal = deeds s.journal
  traced : ErrorsAdded (tracedSteps s.journal) (tracedSteps t.journal)

/-- Whether no text element is waiting for its call. -/
def Calm (journal : List Event) : Prop := dueAfter none journal ≠ some .text

theorem Calm.append_passive {journal : List Event} (h : Calm journal) (events : List Event)
    (hpassive : ∀ ev ∈ events, ev.isPassive = true) : Calm (journal ++ events) := by
  have hdue := dueAfter_of_passive (dueAfter none journal) events hpassive
  rw [Calm, dueAfter_append, hdue]
  exact h

section Twins

variable {b : Backend τ} {start : τ} {s : Scene σ} {t : Scene τ}

/-- Twins after the same events in both, none of them a call. -/
theorem Twins.noting (h : Twins b start s t) (events : List Event) (store : Store)
    (handlers : Handlers) (hhear : ∀ device, b.hearAll device events = device) :
    Twins b start
      { s with store := store, handlers := handlers, journal := s.journal ++ events }
      { t with store := store, handlers := handlers, journal := t.journal ++ events } where
  store := rfl
  handlers := rfl
  ancestors := h.ancestors
  device := by
    rw [Backend.hearAll, List.foldl_append]
    exact h.device.trans (hhear _).symm
  deeds := by rw [deeds_append, deeds_append, h.deeds]
  traced := by
    rw [tracedSteps_append, tracedSteps_append]
    exact h.traced.append (.refl _)

theorem Twins.entering (h : Twins b start s t) (e : Element) (style : ComputedStyle) :
    Twins b start (s.entering e style) (t.entering e style) := by
  have hentered := h.noting (entrance e s.ancestors style) s.store s.handlers fun _ => rfl
  have hsame : t.entering e style =
      { t with
        store := s.store, handlers := s.handlers,
        journal := t.journal ++ entrance e s.ancestors style } := by
    rw [Scene.entering, h.ancestors, ← h.store, ← h.handlers]
  rw [hsame]
  exact hentered

/-- Twins after a record and a line about an error in the second only. -/
theorem Twins.failing (h : Twins b start s t) (r : Record) (text : String)
    (hmark : errorMark.toList <+: text.toList) :
    Twins b start s
      { t with journal := t.journal ++ [.logged r] ++ [.traced (.line text)] } where
  store := h.store
  handlers := h.handlers
  ancestors := h.ancestors
  device := h.device
  deeds := by
    rw [deeds_append, deeds_append]
    exact (List.append_nil _).trans ((List.append_nil _).trans h.deeds)
  traced := by
    rw [tracedSteps_append, tracedSteps_append]
    have hadded := h.traced.append (.add text [] [] hmark .nil)
    rw [List.append_nil] at hadded
    have hrecord : tracedSteps [.logged r] = [] := rfl
    rw [hrecord, List.append_nil]
    exact hadded

theorem Twins.asked (h : Twins b start s t) (first : Backend σ) (c : Call) :
    Twins b start (Draw.asked first c s) (Draw.asked b c t) where
  store := h.store
  handlers := h.handlers
  ancestors := h.ancestors
  device := by
    rw [Draw.asked, Draw.asked, Backend.hearAll, List.foldl_append, h.device]
    rfl
  deeds := by
    rw [Draw.asked, Draw.asked, deeds_append, deeds_append, h.deeds]
    rfl
  traced := by
    rw [Draw.asked, Draw.asked, tracedSteps_append, tracedSteps_append]
    exact h.traced.append (.refl _)

end Twins

/-! ### The judgement -/

namespace Draw

/-- How the outcomes of two parts stand to each other: both are broken off, or neither is, and what
they come to is related. -/
def Joint (R : Except CallError α → Except CallError γ → Prop) (outcome : Except Fault α)
    (outcome' : Except Fault γ) : Prop :=
  (outcome = .error .brokenOff ∧ outcome' = .error .brokenOff) ∨
    ∃ reply reply', outcome = replyOf reply ∧ outcome' = replyOf reply' ∧ R reply reply'

section Judgement

variable (b : Backend τ) (start : τ)

/-- From a scene, the first part leaves a calm journal. If the second backend echoes that journal,
then from any twin of the scene the second part comes to a related outcome and a twin of what the
first has left. -/
def PairsFrom (s : Scene σ) (R : Except CallError α → Except CallError γ → Prop)
    (body : Draw σ α) (twin : Draw τ γ) : Prop :=
  Comes body s fun outcome s' =>
    (∃ events, s'.journal = s.journal ++ events) ∧ Calm s'.journal ∧
      ∀ t, Twins b start s t → b.Echoes start none s'.journal →
        Comes twin t fun outcome' t' => Joint R outcome outcome' ∧ Twins b start s' t'

def Pairs (R : Except CallError α → Except CallError γ → Prop) (body : Draw σ α)
    (twin : Draw τ γ) : Prop :=
  ∀ s, Calm s.journal → PairsFrom b start s R body twin

end Judgement

theorem joint_replyOf {R : Except CallError α → Except CallError γ → Prop}
    (reply : Except CallError α) (reply' : Except CallError γ) (h : R reply reply') :
    Joint R (replyOf reply) (replyOf reply') := .inr ⟨reply, reply', rfl, rfl, h⟩

theorem Joint.mono {P R : Except CallError α → Except CallError γ → Prop}
    {outcome : Except Fault α} {outcome' : Except Fault γ} (h : Joint P outcome outcome')
    (hPR : ∀ reply reply', P reply reply' → R reply reply') : Joint R outcome outcome' := by
  rcases h with hbroken | ⟨reply, reply', houtcome, houtcome', hP⟩
  · exact .inl hbroken
  · exact .inr ⟨reply, reply', houtcome, houtcome', hPR _ _ hP⟩

/-- What comes of a part that has given a result. -/
theorem Joint.of_ok {P : Except CallError α → Except CallError γ → Prop} {a : α}
    {outcome' : Except Fault γ} (h : Joint P (.ok a) outcome') :
    ∃ reply', outcome' = replyOf reply' ∧ P (.ok a) reply' := by
  rcases h with ⟨hbroken, _⟩ | ⟨reply, reply', hreply, hreply', hP⟩
  · cases hbroken
  · cases reply with
    | ok a' =>
      cases hreply
      exact ⟨reply', hreply', hP⟩
    | error e => cases hreply

/-- What comes of a part that has failed. -/
theorem Joint.of_error {P : Except CallError α → Except CallError γ → Prop} {f : Fault}
    {outcome' : Except Fault γ} (h : Joint P (.error f) outcome') :
    (f = .brokenOff ∧ outcome' = .error .brokenOff) ∨
      ∃ e reply', f = .refused e ∧ outcome' = replyOf reply' ∧ P (.error e) reply' := by
  rcases h with ⟨hbroken, hbroken'⟩ | ⟨reply, reply', hreply, hreply', hP⟩
  · exact .inl ⟨Except.error.inj hbroken, hbroken'⟩
  · cases reply with
    | ok a => cases hreply
    | error e => exact .inr ⟨e, reply', Except.error.inj hreply, hreply', hP⟩

/-- The same outcome. -/
def Same (outcome outcome' : Except CallError α) : Prop := outcome' = outcome

/-- The same result, and no refusal. -/
def Done (outcome outcome' : Except CallError α) : Prop :=
  ∃ a, outcome = .ok a ∧ outcome' = .ok a

/-- The same outcome, or a refusal in place of a result that tells of nothing. -/
def Spoils (neutral : α → Bool) (outcome outcome' : Except CallError α) : Prop :=
  outcome' = outcome ∨ ∃ a e, outcome = .ok a ∧ neutral a = true ∧ outcome' = .error e

/-- The same outcome, or a refusal in place of none. -/
abbrev Contained : Except CallError Unit → Except CallError Unit → Prop := Spoils fun _ => true

theorem spoils_refl (neutral : α → Bool) (outcome : Except CallError α) :
    Spoils neutral outcome outcome := Or.inl rfl

theorem Done.same {outcome outcome' : Except CallError α} (h : Done outcome outcome') :
    Same outcome outcome' := by
  obtain ⟨a, rfl, rfl⟩ := h
  rfl

theorem Same.contained {outcome outcome' : Except CallError Unit} (h : Same outcome outcome') :
    Contained outcome outcome' := Or.inl h

theorem Spoils.contained {neutral : Unit → Bool} {outcome outcome' : Except CallError Unit}
    (h : Spoils neutral outcome outcome') : Contained outcome outcome' := by
  rcases h with hsame | ⟨a, err, hok, _, hrefused⟩
  · exact Or.inl hsame
  · exact Or.inr ⟨a, err, hok, rfl, hrefused⟩

variable {b : Backend τ} {start : τ}

theorem PairsFrom.mono {s : Scene σ} {P R : Except CallError α → Except CallError γ → Prop}
    {body : Draw σ α} {twin : Draw τ γ} (h : PairsFrom b start s P body twin)
    (hPR : ∀ outcome outcome', P outcome outcome' → R outcome outcome') :
    PairsFrom b start s R body twin := by
  obtain ⟨outcome, s', hrun, hgrown, hcalm, htwin⟩ := h
  refine ⟨outcome, s', hrun, hgrown, hcalm, fun t ht hechoes => ?_⟩
  obtain ⟨outcome', t', hrun', hP, ht'⟩ := htwin t ht hechoes
  exact ⟨outcome', t', hrun', hP.mono hPR, ht'⟩

theorem Pairs.mono {P R : Except CallError α → Except CallError γ → Prop} {body : Draw σ α}
    {twin : Draw τ γ} (h : Pairs b start P body twin)
    (hPR : ∀ outcome outcome', P outcome outcome' → R outcome outcome') :
    Pairs b start R body twin := fun s hs => (h s hs).mono hPR

theorem ending_forget (body : Draw σ α) (s t : Scene σ) (outcome : Except Fault α)
    (h : body s = ending outcome t) :
    (body >>= fun _ => pure ()) s = ending (outcome.map fun _ => ()) t := by
  cases outcome with
  | ok a => exact bind_of_ok body _ s t a h
  | error f => exact bind_of_error body _ s t f h

/-- Two parts of which nothing but a refusal is of interest. -/
theorem PairsFrom.forget {s : Scene σ} {neutral : α → Bool} {body : Draw σ α} {twin : Draw τ α}
    (h : PairsFrom b start s (Spoils neutral) body twin) :
    PairsFrom b start s Contained (body >>= fun _ => pure ()) (twin >>= fun _ => pure ()) := by
  obtain ⟨outcome, s', hrun, hgrown, hcalm, htwin⟩ := h
  refine ⟨_, s', ending_forget body s s' outcome hrun, hgrown, hcalm, fun t ht hechoes => ?_⟩
  obtain ⟨outcome', t', hrun', hjoint, ht'⟩ := htwin t ht hechoes
  refine ⟨_, t', ending_forget twin t t' outcome' hrun', ?_, ht'⟩
  rcases hjoint with ⟨rfl, rfl⟩ | ⟨reply, reply', rfl, rfl, rfl | ⟨a, e, rfl, _, rfl⟩⟩
  · exact .inl ⟨rfl, rfl⟩
  · cases reply' with
    | ok a => exact joint_replyOf (.ok ()) (.ok ()) (Or.inl rfl)
    | error e => exact joint_replyOf (.error e) (.error e) (Or.inl rfl)
  · exact joint_replyOf (.ok ()) (.error e) (Or.inr ⟨(), e, rfl, rfl, rfl⟩)

/-- A relation of outcomes under which both parts go on or neither does. -/
structure Together (P : Except CallError α → Except CallError α → Prop) : Prop where
  refl : ∀ a, P (.ok a) (.ok a)
  goes : ∀ a outcome', P (.ok a) outcome' → ∃ a', outcome' = .ok a'
  stops : ∀ e outcome', P (.error e) outcome' → outcome' = .error e

theorem Pairs.bind_together {P : Except CallError α → Except CallError α → Prop}
    {R : Except CallError β → Except CallError δ → Prop} {body : Draw σ α} {twin : Draw τ α}
    {next : α → Draw σ β} {next' : α → Draw τ δ} (hP : Together P)
    (h : Pairs b start P body twin)
    (hnext : ∀ a a', P (.ok a) (.ok a') → Pairs b start R (next a) (next' a'))
    (herror : ∀ e outcome', P (.error e) outcome' → R (.error e) (.error e)) :
    Pairs b start R (body >>= next) (twin >>= next') := by
  intro s hs
  obtain ⟨outcome, s', hrun, ⟨events, hgrown⟩, hcalm, htwin⟩ := h s hs
  cases outcome with
  | error f =>
    refine ⟨.error f, s', bind_of_error body next s s' f hrun, ⟨events, hgrown⟩, hcalm,
      fun t ht hechoes => ?_⟩
    obtain ⟨outcome', t', hrun', hjoint, ht'⟩ := htwin t ht hechoes
    rcases hjoint.of_error with ⟨rfl, rfl⟩ | ⟨e, reply', rfl, rfl, hP'⟩
    · exact ⟨.error .brokenOff, t', bind_of_error twin next' t t' _ hrun', .inl ⟨rfl, rfl⟩, ht'⟩
    · obtain rfl := hP.stops e reply' hP'
      exact ⟨.error (.refused e), t', bind_of_error twin next' t t' _ hrun',
        joint_replyOf (.error e) (.error e) (herror e _ hP'), ht'⟩
  | ok a =>
    -- The first run does not depend on the result of the second, so it is taken for equal ones.
    obtain ⟨result, s'', hrest, ⟨more, hmore⟩, hcalm', -⟩ := hnext a a (hP.refl a) s' hcalm
    have hjournal : s''.journal = s.journal ++ (events ++ more) := by
      rw [hmore, hgrown, List.append_assoc]
    refine ⟨result, s'', bind_of_ending body next s s' s'' a result hrun hrest, ⟨_, hjournal⟩,
      hcalm', fun t ht hechoes => ?_⟩
    have hbefore := hechoes
    rw [hmore] at hbefore
    obtain ⟨outcome', t', hrun', hjoint, ht'⟩ :=
      htwin t ht ((b.echoes_append start none _ _).1 hbefore).1
    obtain ⟨reply', rfl, hP'⟩ := hjoint.of_ok
    obtain ⟨a', rfl⟩ := hP.goes a reply' hP'
    obtain ⟨-, -, hlast⟩ := Comes.of_run (hnext a a' hP' s' hcalm) hrest
    exact Comes.after hrun' (hlast t' ht' hechoes)

theorem Pairs.bind {R : Except CallError β → Except CallError δ → Prop} {body : Draw σ α}
    {twin : Draw τ α} {next : α → Draw σ β} {next' : α → Draw τ δ}
    (h : Pairs b start Same body twin) (hnext : ∀ a, Pairs b start R (next a) (next' a))
    (herror : ∀ e, R (.error e) (.error e)) :
    Pairs b start R (body >>= next) (twin >>= next') := by
  have htogether : Together (Same (α := α)) :=
    ⟨fun _ => rfl, fun a _ hsame => ⟨a, hsame⟩, fun _ _ hsame => hsame⟩
  refine Pairs.bind_together htogether h ?_ ?_
  · intro a a' hsame
    obtain rfl : a' = a := Except.ok.inj hsame
    exact hnext a'
  · exact fun e _ _ => herror e

theorem Pairs.bind_done {R : Except CallError β → Except CallError δ → Prop} {body : Draw σ α}
    {twin : Draw τ α} {next : α → Draw σ β} {next' : α → Draw τ δ}
    (h : Pairs b start Done body twin) (hnext : ∀ a, Pairs b start R (next a) (next' a)) :
    Pairs b start R (body >>= next) (twin >>= next') := by
  refine Pairs.bind_together ⟨fun a => ⟨a, rfl, rfl⟩, ?_, ?_⟩ h ?_ ?_
  · rintro a _ ⟨a', _, rfl⟩
    exact ⟨a', rfl⟩
  · rintro e _ ⟨a, ha, _⟩
    cases ha
  · rintro a a' ⟨c, ha, ha'⟩
    cases ha
    cases ha'
    exact hnext a
  · rintro e _ ⟨a, ha, _⟩
    cases ha

theorem Pairs.attempt {P : Except CallError α → Except CallError α → Prop} {body : Draw σ α}
    {twin : Draw τ α} (h : Pairs b start P body twin) :
    Pairs b start (fun r r' => ∃ outcome outcome', r = .ok outcome ∧ r' = .ok outcome' ∧
      P outcome outcome') (Draw.attempt body) (Draw.attempt twin) := by
  intro s hs
  obtain ⟨outcome, s', hrun, hgrown, hcalm, htwin⟩ := h s hs
  refine ⟨caught outcome, s', attempt_of_ending body s s' outcome hrun, hgrown, hcalm,
    fun t ht hechoes => ?_⟩
  obtain ⟨outcome', t', hrun', hjoint, ht'⟩ := htwin t ht hechoes
  refine ⟨caught outcome', t', attempt_of_ending twin t t' outcome' hrun', ?_, ht'⟩
  rcases hjoint with ⟨rfl, rfl⟩ | ⟨reply, reply', rfl, rfl, hP⟩
  · exact .inl ⟨rfl, rfl⟩
  · rw [caught_replyOf, caught_replyOf]
    exact joint_replyOf (.ok reply) (.ok reply')
      ⟨reply, reply', rfl, rfl, hP⟩

theorem Pairs.attempt_bind {P : Except CallError α → Except CallError α → Prop}
    {R : Except CallError β → Except CallError δ → Prop} {body : Draw σ α} {twin : Draw τ α}
    {next : Except CallError α → Draw σ β} {next' : Except CallError α → Draw τ δ}
    (hrefl : ∀ outcome, P outcome outcome) (h : Pairs b start P body twin)
    (hnext : ∀ outcome outcome', P outcome outcome' →
      Pairs b start R (next outcome) (next' outcome')) :
    Pairs b start R (Draw.attempt body >>= next) (Draw.attempt twin >>= next') := by
  refine Pairs.bind_together ⟨?_, ?_, ?_⟩ h.attempt ?_ ?_
  · exact fun outcome => ⟨outcome, outcome, rfl, rfl, hrefl outcome⟩
  · rintro _ _ ⟨_, outcome', _, rfl, _⟩
    exact ⟨outcome', rfl⟩
  · rintro _ _ ⟨_, _, herr, _⟩
    cases herr
  · rintro r r' ⟨outcome, outcome', hok, hok', hP⟩
    cases hok
    cases hok'
    exact hnext r r' hP
  · rintro _ _ ⟨_, _, herr, _⟩
    cases herr

theorem pairs_pure (a : α) (a' : γ) (R : Except CallError α → Except CallError γ → Prop)
    (hR : R (.ok a) (.ok a')) : Pairs b start R (pure a : Draw σ α) (pure a' : Draw τ γ) :=
  fun s hs => ⟨.ok a, s, rfl, ⟨[], (List.append_nil _).symm⟩, hs, fun t ht _ =>
    ⟨.ok a', t, rfl, joint_replyOf (.ok a) (.ok a') hR, ht⟩⟩

theorem pairs_rethrow (outcome : Except CallError α) (outcome' : Except CallError γ)
    (R : Except CallError α → Except CallError γ → Prop) (hR : R outcome outcome') :
    Pairs b start R (rethrow outcome : Draw σ α) (rethrow outcome' : Draw τ γ) :=
  fun s hs => comes_rethrow outcome s ⟨⟨[], (List.append_nil _).symm⟩, hs, fun t ht _ =>
    comes_rethrow outcome' t ⟨joint_replyOf outcome outcome' hR, ht⟩⟩

/-- Only the second part fails, with a refusal that it has met earlier. -/
theorem pairs_spoiled (err : CallError) (next : α → Draw τ Unit) :
    Pairs b start Contained (pure () : Draw σ Unit) (rethrow (.error err) >>= next) :=
  fun s hs => ⟨.ok (), s, rfl, ⟨[], (List.append_nil _).symm⟩, hs, fun t ht _ =>
    ⟨.error (.refused err), t, rfl, joint_replyOf (.ok ()) (.error err)
      (Or.inr ⟨(), err, rfl, rfl, rfl⟩), ht⟩⟩

theorem Pairs.within {R : Except CallError α → Except CallError γ → Prop} {body : Draw σ α}
    {twin : Draw τ γ} (e : Element) (h : Pairs b start R body twin) :
    Pairs b start R (Draw.within e body) (Draw.within e twin) := by
  intro s hs
  apply Comes.within
  apply Comes.mono (h { s with ancestors := s.ancestors ++ [e] } hs)
  rintro outcome s' ⟨hgrown, hcalm, htwin⟩
  rw [journal_outside]
  refine ⟨hgrown, hcalm, fun t ht hechoes => ?_⟩
  apply Comes.within
  have hinside : Twins b start { s with ancestors := s.ancestors ++ [e] }
      { t with ancestors := t.ancestors ++ [e] } :=
    { ht with ancestors := congrArg (· ++ [e]) ht.ancestors }
  apply Comes.mono (htwin _ hinside hechoes)
  rintro outcome' t' ⟨hjoint, ht'⟩
  refine ⟨hjoint, ?_⟩
  rcases hjoint with ⟨rfl, rfl⟩ | ⟨reply, reply', rfl, rfl, _⟩
  · exact ht'
  · rw [outside_replyOf, outside_replyOf]
    exact { ht' with ancestors := congrArg List.dropLast ht'.ancestors }

end Draw

/-! ### What a scene offers -/

namespace Draw

variable {b : Backend τ} {start : τ}

/-- A part that does not ask the backend comes to the same under both. -/
theorem pairs_of_effect (effect : Store → Handlers → List Element → Effect α)
    (body : Draw σ α) (twin : Draw τ α)
    (hpassive : ∀ store handlers ancestors,
      ∀ ev ∈ (effect store handlers ancestors).events, ev.isPassive = true)
    (hbody : ∀ s, body s = .ok (effect s.store s.handlers s.ancestors).value
      (s.affected (effect s.store s.handlers s.ancestors)))
    (htwin : ∀ t, twin t = .ok (effect t.store t.handlers t.ancestors).value
      (t.affected (effect t.store t.handlers t.ancestors))) :
    Pairs b start Done body twin := by
  intro s hs
  have hevents := hpassive s.store s.handlers s.ancestors
  refine ⟨.ok _, _, hbody s, ⟨_, rfl⟩, hs.append_passive _ hevents, fun t ht _ => ?_⟩
  have hrun := htwin t
  rw [ht.store, ht.handlers, ht.ancestors] at hrun
  exact ⟨.ok _, _, hrun, joint_replyOf (.ok _) (.ok _) ⟨_, rfl, rfl⟩,
    ht.noting _ _ _ fun device => hearAll_of_passive b device _ hevents⟩

theorem pairs_emit (ev : Event) (h : ev.isPassive = true) :
    Pairs b start Done (emit ev : Draw σ Unit) (emit ev : Draw τ Unit) := by
  refine pairs_of_effect (fun store handlers _ => ⟨(), store, handlers, [ev]⟩) _ _ ?_
    (fun _ => rfl) (fun _ => rfl)
  intro _ _ _ ev' hev'
  rw [List.mem_singleton.1 hev']
  exact h

theorem pairs_log (level : Level) (source message : String) :
    Pairs b start Done (log level source message : Draw σ Unit)
      (log level source message : Draw τ Unit) := pairs_emit _ rfl

theorem pairs_trace (text : String) :
    Pairs b start Done (trace text : Draw σ Unit) (trace text : Draw τ Unit) := pairs_emit _ rfl

theorem pairs_lift (x : Logged α) :
    Pairs b start Done (lift x : Draw σ α) (lift x : Draw τ α) :=
  pairs_of_effect (fun store handlers _ => ⟨x.value, store, handlers, x.records.map .logged⟩) _ _
    (fun _ _ _ => isPassive_records x.records) (fun _ => rfl) (fun _ => rfl)

theorem pairs_styleOf (sheet : Style.Sheet) (e : Element) :
    Pairs b start Done (styleOf sheet e : Draw σ ComputedStyle)
      (styleOf sheet e : Draw τ ComputedStyle) :=
  pairs_of_effect (fun store handlers ancestors =>
      ⟨(sheet.styleOf e ancestors).value, store, handlers,
        (sheet.styleOf e ancestors).records.map .logged⟩) _ _
    (fun _ _ ancestors => isPassive_records (sheet.styleOf e ancestors).records)
    (fun _ => rfl) (fun _ => rfl)

/-- A part that notes nothing comes to the same under both. -/
theorem pairs_of_change (change : Store → List Element → α × Store) (body : Draw σ α)
    (twin : Draw τ α)
    (hbody : ∀ s, body s = .ok (change s.store s.ancestors).1
      { s with store := (change s.store s.ancestors).2 })
    (htwin : ∀ t, twin t = .ok (change t.store t.ancestors).1
      { t with store := (change t.store t.ancestors).2 }) : Pairs b start Done body twin := by
  refine pairs_of_effect (fun store handlers ancestors =>
      ⟨(change store ancestors).1, (change store ancestors).2, handlers, []⟩) body twin
    (fun _ _ _ _ h => absurd h List.not_mem_nil) ?_ ?_
  · intro s
    rw [hbody, Scene.affected, List.append_nil]
  · intro t
    rw [htwin, Scene.affected, List.append_nil]

theorem pairs_keyOf (e : Element) :
    Pairs b start Done (keyOf e : Draw σ String) (keyOf e : Draw τ String) :=
  pairs_of_change (fun store ancestors => (stateKey e ancestors, store)) _ _
    (fun _ => rfl) (fun _ => rfl)

theorem pairs_readState (id : String) (default : WidgetValue) :
    Pairs b start Done (readState id default : Draw σ WidgetValue)
      (readState id default : Draw τ WidgetValue) :=
  pairs_of_change (fun store _ => store.read id default) _ _ (fun _ => rfl) (fun _ => rfl)

theorem pairs_writeState (id : String) (value : WidgetValue) :
    Pairs b start Done (writeState id value : Draw σ Unit) (writeState id value : Draw τ Unit) :=
  pairs_of_change (fun store _ => ((), store.write id value)) _ _ (fun _ => rfl) (fun _ => rfl)

theorem pairs_dispatch (name : String) :
    Pairs b start Done (dispatch name : Draw σ Unit) (dispatch name : Draw τ Unit) := by
  refine pairs_of_effect (fun store handlers _ => dispatchEffect name store handlers) _ _ ?_
    (dispatch_eq name) (dispatch_eq name)
  intro store handlers _
  rw [dispatchEffect]
  cases (handlers.dispatch name).run.value with
  | ok fired =>
    exact List.forall_mem_append.2 ⟨isPassive_records _, List.forall_mem_singleton.2 rfl⟩
  | error e =>
    exact List.forall_mem_append.2 ⟨isPassive_records _, List.forall_mem_singleton.2 rfl⟩

theorem pairs_notify (e : Element) (event : String) :
    Pairs b start Done (notify e event : Draw σ Unit) (notify e event : Draw τ Unit) := by
  unfold notify
  split
  · exact pairs_dispatch _
  · exact pairs_pure () () _ ⟨(), rfl, rfl⟩

theorem pairs_changeStore (change : Store → Logged Store) :
    Pairs b start Done
      (do
        let s ← get
        let store ← lift (change s.store)
        modify fun t => { t with store := store } : Draw σ Unit)
      (do
        let s ← get
        let store ← lift (change s.store)
        modify fun t => { t with store := store } : Draw τ Unit) :=
  pairs_of_effect (fun store handlers _ =>
      ⟨(), (change store).value, handlers, (change store).records.map .logged⟩) _ _
    (fun store _ _ => isPassive_records (change store).records) (fun _ => rfl) (fun _ => rfl)

/-! ### Containing refusals -/

/-- A contained part goes on under both. A refusal in the second only adds a line to its trace. -/
theorem Pairs.contain {body : Draw σ Unit} {twin : Draw τ Unit} (source report : String)
    (e : Element) (h : Pairs b start Contained body twin) :
    Pairs b start Done (Draw.contain source report e body)
      (Draw.contain source report e twin) := by
  refine Pairs.attempt_bind (spoils_refl _) h ?_
  rintro outcome outcome' (rfl | ⟨_, err, rfl, _, rfl⟩)
  · cases outcome' with
    | ok _ => exact pairs_pure () () _ ⟨(), rfl, rfl⟩
    | error err => exact Pairs.bind_done (pairs_log _ _ _) fun _ => pairs_trace _
  · intro s hs
    refine ⟨.ok (), s, rfl, ⟨[], (List.append_nil _).symm⟩, hs, fun t ht _ => ?_⟩
    exact ⟨.ok (), _, rfl, joint_replyOf (.ok ()) (.ok ()) ⟨(), rfl, rfl⟩,
      ht.failing ⟨.error, source, s!"{report}: {err.message}"⟩ _
        (isPrefix_traceFailure e.tag err.message)⟩

/-- Both frames enter an element in the same way. -/
theorem PairsFrom.entering {R : Except CallError Unit → Except CallError Unit → Prop}
    {body : Draw σ Unit} {twin : Draw τ Unit} {e : Element} {style : ComputedStyle} {s : Scene σ}
    (h : PairsFrom b start (s.entering e style) R body twin) :
    PairsFrom b start s R (Draw.entering e style body) (Draw.entering e style twin) := by
  apply Comes.entering
  apply Comes.mono h
  rintro outcome s' ⟨⟨events, hgrown⟩, hcalm, htwin⟩
  refine ⟨⟨entrance e s.ancestors style ++ events, ?_⟩, hcalm, fun t ht hechoes => ?_⟩
  · rw [hgrown, Scene.entering, List.append_assoc]
  · exact Comes.entering (htwin _ (ht.entering e style) hechoes)

/-! ### Calls -/

theorem exists_of_isRefusal (reply : Except Fault α) (h : isRefusal reply = true) :
    ∃ e : CallError, reply = replyOf (.error e) := by
  match reply with
  | .ok a => cases h
  | .error (.refused e) => exact ⟨e, rfl⟩
  | .error .brokenOff => cases h

theorem exists_of_isNeutralReply (c : Call) (noted : Except Fault c.Answer)
    (h : c.isNeutralReply noted = true) :
    ∃ a : c.Answer, noted = replyOf (.ok a) ∧ c.isNeutral a = true := by
  cases noted with
  | ok a => exact ⟨a, rfl, h⟩
  | error f => cases h

/-- What the second backend makes of a call that the first has been asked: both break the frame
off, the outcomes are the same, or an excusable call is refused. -/
theorem pairsFrom_issue (first : Backend σ) (c : Call) (s : Scene σ)
    (hcalm : c.widget? = none → Calm s.journal) :
    PairsFrom b start s (fun outcome outcome' => outcome' = outcome ∨
        Excusable (dueAfter none s.journal) c ∧
          ∃ a e, outcome = .ok a ∧ c.isNeutral a = true ∧ outcome' = .error e)
      (issue first c) (issue b c) := by
  have hdue : Calm (asked first c s).journal := by
    rw [Calm, asked, dueAfter_append]
    show (if c.widget?.isSome then none else dueAfter none s.journal) ≠ some .text
    cases hwidget : c.widget? with
    | none => exact hcalm hwidget
    | some kind => simp
  refine comes_issue first c ⟨⟨_, rfl⟩, hdue, fun t ht hechoes => ?_⟩
  refine comes_issue b c ⟨?_, ht.asked first c⟩
  have hrepeats : b.Repeats t.device (dueAfter none s.journal)
      (.called c (first.reply c s.device)) := by
    have hlast := ((b.echoes_append start none _ _).1 hechoes).2
    rw [ht.device]
    have hcalled := ((b.echoes_cons _ _ _ _).1 hlast).2
    exact ((b.echoes_cons _ _ _ _).1 hcalled).1
  rcases hrepeats with hsame | ⟨hexcusable, hneutral, hrefused⟩
  · rw [hsame]
    rcases brokenOff_or_replyOf (first.reply c s.device) with hbroken | ⟨reply, hreply⟩
    · exact .inl ⟨hbroken, hbroken⟩
    · rw [hreply]
      exact joint_replyOf _ _ (Or.inl rfl)
  · obtain ⟨a, ha, hneutral⟩ := exists_of_isNeutralReply c _ hneutral
    obtain ⟨e, he⟩ := exists_of_isRefusal _ hrefused
    rw [ha, he]
    exact joint_replyOf _ _ (Or.inr ⟨hexcusable, a, e, rfl, hneutral, rfl⟩)

/-- A call that is not excusable comes to the same under both. -/
theorem pairs_issue (first : Backend σ) (c : Call)
    (hfirm : ∀ journal, Calm journal → ¬ Excusable (dueAfter none journal) c) :
    Pairs b start Same (issue first c) (issue b c) := by
  intro s hs
  apply (pairsFrom_issue first c s fun _ => hs).mono
  rintro outcome outcome' (hsame | ⟨hexcusable, _⟩)
  · exact hsame
  · exact absurd hexcusable (hfirm s.journal hs)

theorem pairsFrom_issue_spoiled (first : Backend σ) (c : Call) (s : Scene σ)
    (hcalm : c.widget? = none → Calm s.journal) :
    PairsFrom b start s (Spoils c.isNeutral) (issue first c) (issue b c) := by
  apply (pairsFrom_issue first c s hcalm).mono
  rintro outcome outcome' (hsame | ⟨_, hspoiled⟩)
  · exact Or.inl hsame
  · exact Or.inr hspoiled

end Draw
end FrameUI.Frame
