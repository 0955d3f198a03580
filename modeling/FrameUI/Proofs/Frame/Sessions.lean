import FrameUI.Proofs.Frame.Brackets
import FrameUI.Proofs.Frame.Watching

/-!
# Sessions

In a session a host renders frames and clears the state now and then, and of each of these moments
it keeps what the journal noted. Main statement: whatever happens in a session, under every key
the widgets hand over the value that the life of their entry gives them, and the entry is dropped
when the state is cleared or the grace period is over, and only then (`Session.step_keepsState`).
-/

namespace FrameUI.Frame

variable {σ α : Type}

/-! ### What a host does -/

inductive HostStep where
  | render (markup stylesheet : String)
  | clear
deriving DecidableEq, Repr

/-- What is kept of a step: how a frame came out and what was noted in it, or that the state was
cleared. -/
inductive Moment where
  | framed (status : Option FrameOutcome) (journal : List Event)
  | cleared

def Moment.journal : Moment → List Event
  | framed _ journal => journal
  | cleared => []

/-- A renderer in use, with the device of its backend and the moments so far. -/
structure Session (σ : Type) where
  renderer : Renderer σ
  device : σ
  history : List Moment

namespace Session

def start (r : Renderer σ) (device : σ) : Session σ := ⟨r, device, []⟩

def moment (x : Session σ) : HostStep → Moment
  | .render markup stylesheet =>
    let frame := (x.renderer.render x.device markup stylesheet).value
    .framed frame.status frame.journal
  | .clear => .cleared

def step (x : Session σ) (next : HostStep) : Session σ :=
  let history := x.history ++ [x.moment next]
  match next with
  | .render markup stylesheet =>
    let frame := (x.renderer.render x.device markup stylesheet).value
    ⟨frame.renderer, frame.device, history⟩
  | .clear => ⟨x.renderer.forgetState, x.device, history⟩

def run (x : Session σ) (steps : List HostStep) : Session σ := steps.foldl step x

def PopsAccepted (x : Session σ) : Prop := ∀ m ∈ x.history, Frame.PopsAccepted m.journal

instance : DecidablePred (PopsAccepted (σ := σ)) := fun x =>
  inferInstanceAs (Decidable (∀ m ∈ x.history, Frame.PopsAccepted m.journal))

/-- No frame of a session was broken off. -/
def Unbroken (x : Session σ) : Prop := ∀ m ∈ x.history, Frame.Unbroken m.journal

instance : DecidablePred (Unbroken (σ := σ)) := fun x =>
  inferInstanceAs (Decidable (∀ m ∈ x.history, Frame.Unbroken m.journal))

end Session

/-! ### Watching a session -/

/-- A rendered frame is watched from its start to its end, and any other only for what is noted. -/
def Watch.look (id : String) (w : Watch) : Moment → Watch
  | .framed (some .rendered) journal =>
    let drawn := Watch.seeAll id ⟨w.frame + 1, false, w.seen⟩ journal
    ⟨drawn.frame, false, drawn.seen ++ [.ended drawn.frame]⟩
  | .framed _ journal => Watch.seeAll id { w with inside := false } journal
  | .cleared => { w with seen := w.seen ++ [.cleared] }

def Session.watch (id : String) (x : Session σ) : Watch :=
  x.history.foldl (Watch.look id) ⟨0, false, []⟩

/-- Whether a moment drops the entry of a key, given the watch after it. -/
def Moment.drops (grace : Nat) (w : Watch) : Moment → Bool
  | .framed status _ => decide (status = some .rendered) && outlived grace w.frame w.seen
  | .cleared => true

theorem look_later (id : String) (w : Watch) (status : Option FrameOutcome)
    (journal more : List Event) (h : Asides more) :
    w.look id (.framed status (journal ++ more)) = w.look id (.framed status journal) := by
  have hmore : ∀ v : Watch, v.seeAll id (journal ++ more) = v.seeAll id journal := by
    intro v
    rw [Watch.seeAll_append, Watch.seeAll_of_asides _ _ more h]
  cases status with
  | none => exact hmore _
  | some status =>
    cases status with
    | rendered =>
      rw [Watch.look, hmore]
      rfl
    | _ => exact hmore _

/-- The life of an entry ends in the moments that drop it. -/
theorem lifeAfter_look_eq_nil_iff (id : String) (grace : Nat) (w : Watch) (m : Moment)
    (h : (lastRun? (lifeAfter grace w.seen)).isSome) :
    lifeAfter grace (w.look id m).seen = [] ↔ m.drops grace (w.look id m) = true := by
  have hgoes : ∀ (v : Watch) journal, v.seen = w.seen →
      ∃ last, lastRun? (lifeAfter grace (v.seeAll id journal).seen) = some last := by
    intro v journal hv
    rw [← hv] at h
    exact Option.isSome_iff_exists.1 (v.isSome_lastRun?_seeAll id grace journal h)
  have hlasts : ∀ (v : Watch) journal, v.seen = w.seen →
      lifeAfter grace (v.seeAll id journal).seen ≠ [] := by
    intro v journal hv hnil
    obtain ⟨last, hlast⟩ := hgoes v journal hv
    rw [hnil] at hlast
    cases hlast
  cases m with
  | cleared => exact iff_of_true (lifeAfter_concat _ _ _) rfl
  | framed status journal =>
    cases status with
    | none => exact iff_of_false (hlasts _ journal rfl) Bool.false_ne_true
    | some status =>
      cases status with
      | rendered =>
        generalize hdrawn : Watch.seeAll id ⟨w.frame + 1, false, w.seen⟩ journal = drawn
        have hlife := hlasts ⟨w.frame + 1, false, w.seen⟩ journal rfl
        obtain ⟨last, hlast⟩ := hgoes ⟨w.frame + 1, false, w.seen⟩ journal rfl
        -- The moment looks at the last run of all, and a life at the last run in it.
        have hrun := lastRun?_of_lifeAfter grace _ last hlast
        rw [hdrawn] at hlife hlast hrun
        have hlook : w.look id (.framed (some .rendered) journal) =
            ⟨drawn.frame, false, drawn.seen ++ [.ended drawn.frame]⟩ := by
          rw [Watch.look, hdrawn]
        rw [hlook, lifeAfter_concat, live, Moment.drops, outlived, outlived, hlast,
          lastRun?_concat _ _ rfl, hrun]
        by_cases hover : last + grace < drawn.frame
        · simp [hover]
        · simp [hover, hlife]
      | _ => exact iff_of_false (hlasts _ journal rfl) Bool.false_ne_true

/-! ### Frames -/

section Frames

variable (id : String) (kind : Markup.Tag) (grace : Nat) (w : Watch)

/-- At the end of a frame the store agrees with what was seen, as long as no pop was refused. -/
def Framed (status : Option FrameOutcome) (s : Scene σ) : Prop :=
  PopsAccepted s.journal → Follows id kind grace (w.look id (.framed status s.journal)) s.store

theorem Framed.later {status : Option FrameOutcome} {s t : Scene σ} {events : List Event}
    (h : Framed id kind grace w status s) (hlater : s.Later t events) (hasides : Asides events) :
    Framed id kind grace w status t := by
  intro hpops
  rw [hlater.journal] at hpops
  rw [hlater.journal, hlater.store, look_later id w status _ _ hasides]
  exact h fun ev hev => hpops ev (List.mem_append_left _ hev)

/-- A scene of a frame in which nothing has been drawn yet. -/
structure Undrawn (s : Scene σ) : Prop where
  follows : Follows id kind grace w s.store
  asides : Asides s.journal

theorem Undrawn.later {s t : Scene σ} {events : List Event} (h : Undrawn id kind grace w s)
    (hlater : s.Later t events) (hasides : Asides events) : Undrawn id kind grace w t where
  follows := by
    rw [hlater.store]
    exact h.follows
  asides := by
    rw [hlater.journal]
    exact (asides_append _ _).2 ⟨h.asides, hasides⟩

/-- A part that takes a frame from before its drawing to its end. -/
def Draw.Frames (body : Draw σ FrameOutcome) : Prop :=
  ∀ s, Undrawn id kind grace w s → Draw.Ends body s fun outcome t =>
    ∀ status, outcome = .ok status → Framed id kind grace w (some status) t

variable {id kind grace w}

theorem Draw.Frames.idles_bind (body : Draw σ α) (next : α → Draw σ FrameOutcome)
    (h : Draw.Idles body) (hnext : ∀ a, Draw.Frames id kind grace w (next a)) :
    Draw.Frames id kind grace w (body >>= next) := by
  intro s hs
  apply Draw.Notes.bind_ends body next _ s _ h
  · exact fun a t events hlater hasides => hnext a t (hs.later id kind grace w hlater hasides)
  · intro _ _ _ _ _ _ hstatus
    cases hstatus

theorem Draw.frames_pure (status : FrameOutcome) (hstatus : status ≠ .rendered) :
    Draw.Frames id kind grace w (pure status : Draw σ FrameOutcome) := by
  intro s hs
  refine Draw.ends_pure status s _ fun status' hstatus' _ => ?_
  obtain rfl : status = status' := Except.ok.inj hstatus'
  have hlook : w.look id (.framed (some status) s.journal) = { w with inside := false } := by
    cases status with
    | rendered => exact absurd rfl hstatus
    | _ => exact Watch.seeAll_of_asides id _ _ hs.asides
  rw [hlook]
  exact hs.follows.elsewhere s.store false rfl rfl rfl

theorem ends_changeStore (change : Store → Logged Store) (s : Scene σ) :
    Draw.Ends (do
      let s ← get
      let store ← Draw.lift (change s.store)
      modify fun t => { t with store := store } : Draw σ Unit) s fun _ t =>
        t.store = (change s.store).value ∧
          ∃ events, t.journal = s.journal ++ events ∧ Asides events :=
  Draw.Ends.of_ok _ s _ () _ rfl ⟨rfl, _, rfl, asides_records _⟩

/-- Between an advance and a sweep of the store a document is drawn. -/
theorem frames_drawn (stage : Stage σ) (root : Markup.Element) :
    Draw.Frames id kind grace w (do
      advanceStore
      drawDocument stage root
      sweepStore
      pure .rendered) := by
  intro s hs
  apply Draw.Ends.bind _ _ s _ _ (ends_changeStore Store.advance s)
  · intro _ t hadvanced
    obtain ⟨hstore, records, hjournal, hrecords⟩ := hadvanced
    have hwatched : Watched id kind grace ⟨w.frame + 1, false, w.seen⟩ t := by
      intro _
      rw [hjournal, hstore, Watch.seeAll_append, Watch.seeAll_of_asides _ _ _ hs.asides,
        Watch.seeAll_of_asides _ _ _ hrecords]
      exact hs.follows.advanced
    apply Draw.Ends.bind _ _ t _ _ (keeps_document id kind grace _ stage root t hwatched)
    · intro _ u hkept
      apply Draw.Ends.bind _ _ u _ _ (ends_changeStore Store.sweep u)
      · intro _ v hswept
        obtain ⟨hstore, records, hjournal, hrecords⟩ := hswept
        refine Draw.ends_pure _ v _ fun status hstatus hpops => ?_
        obtain rfl : FrameOutcome.rendered = status := Except.ok.inj hstatus
        rw [hjournal] at hpops
        rw [hjournal, hstore, look_later _ _ _ _ _ hrecords]
        exact (hkept fun ev hev => hpops ev (List.mem_append_left _ hev)).swept
      · intro _ _ _ _ hstatus
        cases hstatus
    · intro _ _ _ _ hstatus
      cases hstatus
  · intro _ _ _ _ hstatus
    cases hstatus

end Frames

namespace Renderer

section Frames

variable {id : String} {kind : Markup.Tag} {grace : Nat} {w : Watch} (r : Renderer σ)
  (markup stylesheet : String)

theorem frames_drawSources (backend : Backend σ) :
    Draw.Frames id kind grace w (r.drawSources backend markup stylesheet) := by
  refine Draw.Frames.idles_bind _ _ (Draw.idles_lift _) fun root => ?_
  refine Draw.Frames.idles_bind _ _ (Draw.idles_lift _) fun sheet? => ?_
  cases sheet? with
  | none =>
    refine Draw.Frames.idles_bind _ _ (Draw.idles_log _ _ _) fun _ => ?_
    refine Draw.Frames.idles_bind _ _ (Draw.idles_trace _) fun _ => ?_
    exact Draw.frames_pure .stylesheetRejected (by decide)
  | some sheet => exact frames_drawn _ root

theorem frames_frameBody :
    Draw.Frames id kind grace w (r.frameBody markup stylesheet) := by
  unfold frameBody
  split
  · refine Draw.Frames.idles_bind _ _ (Draw.idles_log _ _ _) fun _ => ?_
    refine Draw.Frames.idles_bind _ _ (Draw.idles_trace _) fun _ => ?_
    exact Draw.frames_pure .noBackend (by decide)
  · split
    · refine Draw.Frames.idles_bind _ _ (Draw.idles_log _ _ _) fun _ => ?_
      exact Draw.frames_pure .emptyMarkup (by decide)
    · exact r.frames_drawSources markup stylesheet _

theorem frames_frame :
    Draw.Frames id kind grace w (r.frame markup stylesheet) := by
  refine Draw.Frames.idles_bind _ _ (Draw.idles_emit (.traced .started) rfl) fun _ => ?_
  intro s hs
  apply Draw.Ends.bind _ _ s _ _ (r.frames_frameBody markup stylesheet s hs)
  · intro status t hframed
    have hended : Draw.Idles (do
        Draw.emit (.traced .ended)
        Draw.emit (.traced .flushed) : Draw σ Unit) :=
      Draw.Idles.bind _ _ (Draw.idles_emit _ rfl) fun _ => Draw.idles_emit _ rfl
    apply Draw.Notes.bind_ends _ (fun _ => pure status) _ t _ hended
    · intro _ u events hlater hasides
      refine Draw.ends_pure status u _ fun status' hstatus => ?_
      obtain rfl : status = status' := Except.ok.inj hstatus
      exact (hframed status rfl).later id kind grace w hlater hasides
    · intro _ _ _ _ _ _ hstatus
      cases hstatus
  · intro _ _ _ _ hstatus
    cases hstatus

end Frames

theorem follows_render (id : String) (kind : Markup.Tag) (grace : Nat) (w : Watch)
    (r : Renderer σ) (device : σ) (markup stylesheet : String)
    (hfollows : Follows id kind grace w r.store) :
    let frame := (r.render device markup stylesheet).value
    Unbroken frame.journal → PopsAccepted frame.journal →
      Follows id kind grace (w.look id (.framed frame.status frame.journal))
        frame.renderer.store := by
  intro frame hunbroken
  obtain ⟨outcome, t, hrun⟩ :=
    Draw.exists_ending (r.frame markup stylesheet) (r.scene device)
  obtain ⟨hstatus, hjournal, hstore, -⟩ := r.render_of_frame device markup stylesheet hrun
  rw [hjournal] at hunbroken
  have hframed := r.frames_frame markup stylesheet (r.scene device) ⟨hfollows, asides_nil⟩
  obtain ⟨reply, rfl, hframed⟩ := hframed.exists_of_unbroken hrun hunbroken
  -- That a frame comes to a status at all is known from the brackets of its calls.
  have hcompletes := r.completes_frame markup stylesheet (r.scene device)
  obtain ⟨_, hreply, _, _, ⟨status, rfl⟩, _⟩ := hcompletes.exists_of_unbroken hrun hunbroken
  obtain rfl : reply = .ok status := by
    cases reply with
    | ok status' =>
      cases hreply
      rfl
    | error e => cases hreply
  rw [hstatus, hjournal, hstore]
  exact hframed status rfl

end Renderer

/-! ### Whole sessions -/

theorem isNone_iff_of_stored {id : String} {life : List Occurrence} {entry : Option StoreEntry}
    (h : Stored id life entry) : entry = none ↔ life = [] := by
  cases h with
  | gone hnil => exact iff_of_true rfl hnil
  | held v frame hvalue hlast =>
    refine iff_of_false (Option.some_ne_none _) ?_
    rintro rfl
    cases hlast

namespace Session

/-- All along a session in which no frame is broken off and no pop refused, the store agrees with
what was seen under a key. -/
def Sound (id : String) (kind : Markup.Tag) (grace : Nat) (x : Session σ) : Prop :=
  x.Unbroken → x.PopsAccepted → Follows id kind grace (x.watch id) x.renderer.store

variable (id : String) (kind : Markup.Tag) (grace : Nat)

theorem history_step (x : Session σ) (next : HostStep) :
    (x.step next).history = x.history ++ [x.moment next] := by
  cases next <;> rfl

theorem watch_step (x : Session σ) (next : HostStep) :
    (x.step next).watch id = (x.watch id).look id (x.moment next) := by
  rw [watch, history_step]
  exact List.foldl_append

theorem forall_history_step (P : List Event → Prop) (x : Session σ) (next : HostStep) :
    (∀ m ∈ (x.step next).history, P m.journal) ↔
      (∀ m ∈ x.history, P m.journal) ∧ P (x.moment next).journal := by
  rw [history_step, List.forall_mem_append, List.forall_mem_singleton]

theorem sound_step (x : Session σ) (next : HostStep) (h : x.Sound id kind grace) :
    (x.step next).Sound id kind grace := by
  intro hunbroken hpops
  obtain ⟨hwhole, hframe⟩ := (forall_history_step Frame.Unbroken x next).1 hunbroken
  obtain ⟨hbefore, hnow⟩ := (forall_history_step Frame.PopsAccepted x next).1 hpops
  have hfollows := h hwhole hbefore
  rw [watch_step]
  cases next with
  | render markup stylesheet =>
    exact x.renderer.follows_render id kind grace (x.watch id) x.device markup stylesheet
      hfollows hframe hnow
  | clear => exact hfollows.cleared

theorem sound_run (x : Session σ) (steps : List HostStep) (h : x.Sound id kind grace) :
    (x.run steps).Sound id kind grace := by
  induction steps generalizing x with
  | nil => exact h
  | cons first steps ih => exact ih _ (sound_step id kind grace x first h)

theorem sound_start (r : Renderer σ) (device : σ) (hnew : r.store = .new r.config.graceFrames) :
    (start r device).Sound id kind r.config.graceFrames := by
  intro _ _
  change Follows id kind _ ⟨0, false, []⟩ r.store
  rw [hnew]
  constructor
  · exact .gone rfl
  · rfl
  · rfl
  · exact fun _ _ h => absurd h List.not_mem_nil
  · intro _ before v hprefix
    rw [List.prefix_nil] at hprefix
    exact absurd hprefix (List.append_ne_nil_of_right_ne_nil _ (List.cons_ne_nil _ _))

/-- In every session, under every key whose widgets keep values of one kind, each widget hands over
the value that was last reported since the entry was created, or else the value with which the
entry was created; and a step drops an existing entry exactly if it clears the state, or renders a
frame that comes more than the grace period after the last run of a widget. -/
theorem step_keepsState (r : Renderer σ) (device : σ) (steps : List HostStep) (next : HostStep)
    (id : String) (kind : Markup.Tag) (hnew : r.store = .new r.config.graceFrames)
    (hunbroken : (((start r device).run steps).step next).Unbroken)
    (hpops : (((start r device).run steps).step next).PopsAccepted)
    (hkind : OneKind kind ((((start r device).run steps).step next).watch id).seen) :
    let before := (start r device).run steps
    let after := before.step next
    let w := after.watch id
    Faithful r.config.graceFrames w.seen ∧
      ((after.renderer.store.find? id).isSome ↔ lifeAfter r.config.graceFrames w.seen ≠ []) ∧
        ((before.renderer.store.find? id).isSome →
          (after.renderer.store.find? id = none ↔
            (before.moment next).drops r.config.graceFrames w = true)) := by
  have hbefore := sound_run id kind _ _ steps (sound_start id kind r device hnew)
  have hfollows := sound_step id kind _ _ next hbefore hunbroken hpops
  have hgone := isNone_iff_of_stored hfollows.stored
  refine ⟨hfollows.asks hkind, ?_, fun hentry => ?_⟩
  · rw [← Option.ne_none_iff_isSome]
    exact not_congr hgone
  · have hstored := (hbefore ((forall_history_step Frame.Unbroken _ next).1 hunbroken).1
      ((forall_history_step Frame.PopsAccepted _ next).1 hpops).1).stored
    rw [hgone, watch_step]
    apply lifeAfter_look_eq_nil_iff
    generalize ((start r device).run steps).renderer.store.find? id = entry at hentry hstored
    cases hstored with
    | gone _ => cases hentry
    | held v frame _ hlast =>
      rw [hlast]
      rfl

/-! ### A session that drops an entry -/

/-- A backend that reports a change or a click whenever it can. -/
def eagerBackend : Backend Unit where
  answer call _ := .ok (Renderer.eagerAnswer call) ()

def eagerRenderer : Renderer Unit :=
  { (Renderer.ofConfig { graceFrames := 1 } : Renderer Unit) with backend := some eagerBackend }

def tickStep : HostStep := .render "<App><Checkbox id='w'/></App>" ""

def emptyStep : HostStep := .render "<App></App>" ""

/-- A box is ticked in one frame and unticked in the next, and then two frames come without it. -/
def tickedSession : Session Unit := (start eagerRenderer ()).run [tickStep, tickStep, emptyStep]

theorem step_keepsState_ticked :
    (tickedSession.step emptyStep).Unbroken ∧ (tickedSession.step emptyStep).PopsAccepted ∧
      ((tickedSession.step emptyStep).watch "w").seen =
        [.ran (.bool false) 1, .asked (.bool false), .reported (.bool true), .ended 1,
          .ran (.bool false) 2, .asked (.bool true), .reported (.bool false), .ended 2,
          .ended 3, .ended 4] ∧
        (tickedSession.renderer.store.find? "w").isSome ∧
          (tickedSession.step emptyStep).renderer.store.find? "w" = none := by
  have hunbroken : (tickedSession.step emptyStep).Unbroken := by decide +kernel
  have hpops : (tickedSession.step emptyStep).PopsAccepted := by decide +kernel
  have hseen : ((tickedSession.step emptyStep).watch "w").seen =
      [.ran (.bool false) 1, .asked (.bool false), .reported (.bool true), .ended 1,
        .ran (.bool false) 2, .asked (.bool true), .reported (.bool false), .ended 2,
        .ended 3, .ended 4] := by decide +kernel
  have hkind : OneKind .checkbox ((tickedSession.step emptyStep).watch "w").seen := by
    rw [hseen]
    decide
  have hentry : (tickedSession.renderer.store.find? "w").isSome := by decide +kernel
  have hdrops : (tickedSession.moment emptyStep).drops 1
      ((tickedSession.step emptyStep).watch "w") = true := by decide +kernel
  have hkept := step_keepsState eagerRenderer () [tickStep, tickStep, emptyStep] emptyStep "w"
    .checkbox rfl hunbroken hpops hkind
  exact ⟨hunbroken, hpops, hseen, hentry, (hkept.2.2 hentry).2 hdrops⟩

end Session
end FrameUI.Frame
