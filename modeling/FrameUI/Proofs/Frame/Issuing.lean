import FrameUI.Proofs.Frame.Drawing
import FrameUI.Proofs.Frame.Ledger

/-!
# What parts of a drawing issue

`Issues` is a judgement on the calls that a part of the drawing issues, in whatever scene it
runs. Its special cases are parts that issue nothing and parts whose calls are drawn. There
are rules for the ways in which parts are put together, and for what a scene offers.
-/

namespace FrameUI.Frame

open FrameUI.Markup (Element)
open FrameUI.Style (ComputedStyle)

variable {σ α β : Type}

namespace Draw

/-- In every scene a part of the drawing ends, and the calls it issues have a property
together with its outcome. -/
def Issues (body : Draw σ α) (Q : Except CallError α → List Issued → Prop) : Prop :=
  ∀ s, Ends body s fun outcome t =>
    ∃ calls, issued t.journal = issued s.journal ++ calls ∧ Q outcome calls

/-- A part that issues no call, though it may be refused. -/
def Silent (body : Draw σ α) : Prop := Issues body fun _ calls => calls = []

/-- A part that issues no call and is never refused. -/
def Quiet (body : Draw σ α) : Prop :=
  Issues body fun outcome calls => (∃ a, outcome = .ok a) ∧ calls = []

/-- A part that issues drawn calls. -/
def Draws (body : Draw σ α) : Prop := Issues body fun _ calls => Drawn calls

/-- A part that issues drawn calls and is never refused. -/
def Completes (body : Draw σ α) : Prop :=
  Issues body fun outcome calls => (∃ a, outcome = .ok a) ∧ Drawn calls

/-! ### Composition -/

theorem Issues.mono (body : Draw σ α) (P Q : Except CallError α → List Issued → Prop)
    (h : Issues body P) (hPQ : ∀ outcome calls, P outcome calls → Q outcome calls) :
    Issues body Q := by
  intro s
  apply Ends.mono body s _ _ (h s)
  intro outcome t hparts
  obtain ⟨calls, hcalls, hP⟩ := hparts
  exact ⟨calls, hcalls, hPQ outcome calls hP⟩

theorem issues_pure (a : α) (Q : Except CallError α → List Issued → Prop) (hQ : Q (.ok a) []) :
    Issues (pure a : Draw σ α) Q := by
  intro s
  exact ends_pure a s _ ⟨[], (List.append_nil _).symm, hQ⟩

theorem Issues.bind (body : Draw σ α) (next : α → Draw σ β)
    (P : Except CallError α → List Issued → Prop) (Q : Except CallError β → List Issued → Prop)
    (h : Issues body P)
    (hok : ∀ a before, P (.ok a) before →
      Issues (next a) fun outcome calls => Q outcome (before ++ calls))
    (herror : ∀ e calls, P (.error e) calls → Q (.error e) calls) :
    Issues (body >>= next) Q := by
  intro s
  apply Ends.bind body next s _ _ (h s)
  · intro a t hparts
    obtain ⟨before, hbefore, hP⟩ := hparts
    apply Ends.mono _ t _ _ (hok a before hP t)
    intro outcome u hparts
    obtain ⟨calls, hcalls, hQ⟩ := hparts
    refine ⟨before ++ calls, ?_, hQ⟩
    rw [hcalls, hbefore, List.append_assoc]
  · intro e t hparts
    obtain ⟨calls, hcalls, hP⟩ := hparts
    exact ⟨calls, hcalls, herror e calls hP⟩

theorem Quiet.bind (body : Draw σ α) (next : α → Draw σ β)
    (Q : Except CallError β → List Issued → Prop) (h : Quiet body)
    (hnext : ∀ a, Issues (next a) Q) : Issues (body >>= next) Q := by
  apply Issues.bind body next _ _ h
  · intro a before hparts
    obtain ⟨_, rfl⟩ := hparts
    exact hnext a
  · intro e calls hparts
    obtain ⟨⟨a, ha⟩, _⟩ := hparts
    cases ha

theorem Draws.bind (body : Draw σ α) (next : α → Draw σ β) (h : Draws body)
    (hnext : ∀ a, Draws (next a)) : Draws (body >>= next) := by
  apply Issues.bind body next _ _ h
  · intro a before hbefore
    apply Issues.mono _ _ _ (hnext a)
    intro _ calls hcalls
    exact .append before calls hbefore hcalls
  · intro _ calls hcalls
    exact hcalls

theorem Completes.bind (body : Draw σ α) (next : α → Draw σ β) (h : Completes body)
    (hnext : ∀ a, Completes (next a)) : Completes (body >>= next) := by
  apply Issues.bind body next _ _ h
  · intro a before hparts
    obtain ⟨_, hbefore⟩ := hparts
    apply Issues.mono _ _ _ (hnext a)
    intro outcome calls hparts
    obtain ⟨hok, hcalls⟩ := hparts
    exact ⟨hok, .append before calls hbefore hcalls⟩
  · intro e calls hparts
    obtain ⟨⟨a, ha⟩, _⟩ := hparts
    cases ha

theorem Quiet.completes (body : Draw σ α) (h : Quiet body) : Completes body := by
  apply Issues.mono body _ _ h
  intro outcome _ hparts
  obtain ⟨hok, rfl⟩ := hparts
  exact ⟨hok, .nothing⟩

theorem Completes.draws (body : Draw σ α) (h : Completes body) : Draws body :=
  Issues.mono body _ _ h fun _ _ hboth => hboth.2

theorem Quiet.draws (body : Draw σ α) (h : Quiet body) : Draws body := h.completes.draws

theorem Issues.attempt (body : Draw σ α) (P : Except CallError α → List Issued → Prop)
    (h : Issues body P) :
    Issues (Draw.attempt body) fun outcome calls => ∃ r, outcome = .ok r ∧ P r calls := by
  intro s
  apply Ends.attempt body s
  apply Ends.mono body s _ _ (h s)
  intro outcome t hparts
  obtain ⟨calls, hcalls, hP⟩ := hparts
  exact ⟨calls, hcalls, outcome, rfl, hP⟩

theorem Issues.attempt_bind (body : Draw σ α) (next : Except CallError α → Draw σ β)
    (P : Except CallError α → List Issued → Prop) (Q : Except CallError β → List Issued → Prop)
    (h : Issues body P)
    (hnext : ∀ r before, P r before →
      Issues (next r) fun outcome calls => Q outcome (before ++ calls)) :
    Issues (Draw.attempt body >>= next) Q := by
  apply Issues.bind _ next _ _ (Issues.attempt body P h)
  · intro r before hparts
    obtain ⟨r', hr, hP⟩ := hparts
    obtain rfl : r = r' := Except.ok.inj hr
    exact hnext r before hP
  · intro e calls hparts
    obtain ⟨r, hr, _⟩ := hparts
    cases hr

theorem silent_rethrow (r : Except CallError α) : Silent (rethrow r : Draw σ α) := by
  intro s
  exact ends_rethrow r s _ ⟨[], (List.append_nil _).symm, rfl⟩

theorem Silent.bind (body : Draw σ α) (next : α → Draw σ β) (h : Silent body)
    (hnext : ∀ a, Silent (next a)) : Silent (body >>= next) := by
  apply Issues.bind body next _ _ h
  · intro a before heq
    subst heq
    exact hnext a
  · intro _ calls hcalls
    exact hcalls

theorem Quiet.silent (body : Draw σ α) (h : Quiet body) : Silent body :=
  Issues.mono body _ _ h fun _ _ hboth => hboth.2

theorem Draws.within (e : Element) (body : Draw σ α) (h : Draws body) :
    Draws (Draw.within e body) := by
  intro s
  apply Ends.within e body s
  exact h { s with ancestors := s.ancestors ++ [e] }

/-! ### Parts that issue nothing -/

theorem quiet_of_journal (body : Draw σ α)
    (h : ∀ s, ∃ a t, body s = .ok a t ∧ issued t.journal = issued s.journal) : Quiet body := by
  intro s
  obtain ⟨a, t, hrun, hissued⟩ := h s
  refine Ends.of_ok body s t a _ hrun ⟨[], ?_, ⟨a, rfl⟩, rfl⟩
  rw [hissued, List.append_nil]

theorem quiet_pure (a : α) : Quiet (pure a : Draw σ α) := issues_pure a _ ⟨⟨a, rfl⟩, rfl⟩

theorem quiet_get : Quiet (get : Draw σ (Scene σ)) :=
  quiet_of_journal _ fun s => ⟨s, s, rfl, rfl⟩

theorem quiet_modify (change : Scene σ → Scene σ)
    (h : ∀ s, (change s).journal = s.journal) : Quiet (modify change : Draw σ PUnit) :=
  quiet_of_journal _ fun s => ⟨⟨⟩, change s, rfl, congrArg issued (h s)⟩

theorem quiet_emit (e : Event) (h : e.issued? = none) : Quiet (emit e : Draw σ Unit) := by
  apply quiet_of_journal
  intro s
  refine ⟨(), { s with journal := s.journal ++ [e] }, rfl, ?_⟩
  simp [issued, h]

theorem quiet_log (level : Level) (source message : String) :
    Quiet (log level source message : Draw σ Unit) := quiet_emit _ rfl

theorem quiet_trace (text : String) : Quiet (trace text : Draw σ Unit) := quiet_emit _ rfl

theorem quiet_lift (x : Logged α) : Quiet (lift x : Draw σ α) := by
  apply quiet_of_journal
  intro s
  refine ⟨x.value, { s with journal := s.journal ++ x.records.map .logged }, rfl, ?_⟩
  have hlogged : issued (x.records.map Event.logged) = [] := by
    simp [issued, Event.issued?, List.filterMap_map, Function.comp_def]
  rw [issued_append, hlogged, List.append_nil]

theorem quiet_keyOf (e : Element) : Quiet (keyOf e : Draw σ String) :=
  Quiet.bind _ _ _ quiet_get fun _ => quiet_pure _

theorem quiet_styleOf (sheet : Style.Sheet) (e : Element) :
    Quiet (styleOf sheet e : Draw σ ComputedStyle) :=
  Quiet.bind _ _ _ quiet_get fun _ => quiet_lift _

theorem quiet_readState (id : String) (default : WidgetValue) :
    Quiet (readState id default : Draw σ WidgetValue) := by
  apply quiet_of_journal
  intro s
  exact ⟨(s.store.read id default).1, { s with store := (s.store.read id default).2 }, rfl, rfl⟩

theorem quiet_writeState (id : String) (value : WidgetValue) :
    Quiet (writeState id value : Draw σ Unit) := quiet_modify _ fun _ => rfl

theorem quiet_dispatch (name : String) : Quiet (dispatch name : Draw σ Unit) := by
  refine Quiet.bind _ _ _ quiet_get fun s => ?_
  refine Quiet.bind _ _ _ (quiet_lift _) fun ran => ?_
  cases ran with
  | ok fired => exact Quiet.bind _ _ _ (quiet_modify _ fun _ => rfl) fun _ => quiet_emit _ rfl
  | error e => exact quiet_log _ _ _

theorem quiet_notify (e : Element) (event : String) : Quiet (notify e event : Draw σ Unit) := by
  unfold notify
  split
  · exact quiet_dispatch _
  · exact quiet_pure _

theorem Draws.attempt (body : Draw σ α) (h : Draws body) : Completes (Draw.attempt body) := by
  apply Issues.mono _ _ _ (Issues.attempt body _ h)
  intro outcome calls hparts
  obtain ⟨r, hr, hcalls⟩ := hparts
  exact ⟨⟨r, hr⟩, hcalls⟩

theorem Draws.contain (source report : String) (e : Element) (body : Draw σ Unit)
    (h : Draws body) : Completes (Draw.contain source report e body) := by
  refine Completes.bind _ _ h.attempt fun outcome => Quiet.completes _ ?_
  cases outcome with
  | ok _ => exact quiet_pure _
  | error err => exact Quiet.bind _ _ _ (quiet_log _ _ _) fun _ => quiet_trace _

/-! ### Calls -/

theorem issues_issue (backend : Backend σ) (c : Call) :
    Issues (issue backend c) fun outcome calls => calls = [⟨c, replyOf outcome⟩] := by
  intro s
  refine ends_issue backend c s _ fun outcome hreply => ⟨[⟨c, replyOf outcome⟩], ?_, rfl⟩
  rw [asked, hreply, issued_append]
  rfl

theorem draws_plain (backend : Backend σ) (c : Call) (hplain : c.isPlain) :
    Draws (issue backend c) := by
  apply Issues.mono _ _ _ (issues_issue backend c)
  intro outcome calls heq
  subst heq
  exact .widget [] [] ⟨c, replyOf outcome⟩ (by simp) hplain (Or.inl ⟨rfl, rfl⟩)

end Draw

end FrameUI.Frame
