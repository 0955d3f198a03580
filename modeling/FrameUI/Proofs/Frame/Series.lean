import FrameUI.Frame.Recorder
import FrameUI.Proofs.Frame.Verdicts

/-!
# Series of frames

A host asks a renderer for one frame after another, and may hand it another backend, tracer or
set of handlers in between. Main statement: every frame of a series comes to its verdict, counts
if it is rendered and leaves no trace but in the log if it is not, and is told to the tracer from
its start to one flush (`Renderer.serve_afterAll`).
-/

namespace FrameUI.Frame

open FrameUI.Markup (Element)

variable {σ α : Type}

/-! ### Drawing and the count of frames -/

/-- A later scene of the same frame, where the trace has only had lines since. -/
structure Scene.Proceeds (s t : Scene σ) : Prop where
  frame : t.store.frame = s.store.frame
  grace : t.store.grace = s.store.grace
  traced : ∃ lines : List String, tracedSteps t.journal = tracedSteps s.journal ++ lines.map .line

theorem Scene.Proceeds.trans {s t u : Scene σ} (h : s.Proceeds t) (h' : t.Proceeds u) :
    s.Proceeds u := by
  refine ⟨h'.frame.trans h.frame, h'.grace.trans h.grace, ?_⟩
  obtain ⟨lines, hlines⟩ := h.traced
  obtain ⟨more, hmore⟩ := h'.traced
  exact ⟨lines ++ more, by rw [hmore, hlines, List.map_append, List.append_assoc]⟩

theorem Scene.Onward.proceeds {s t : Scene σ} (h : s.Onward t) : s.Proceeds t := by
  obtain ⟨events, hjournal, hincidental⟩ := h.journal
  obtain ⟨lines, hlines⟩ := exists_lines_of_incidental events hincidental
  refine ⟨by rw [h.store], by rw [h.store], lines, ?_⟩
  rw [hjournal, tracedSteps_append, hlines]

theorem proceeds_asked (backend : Backend σ) (c : Call) (s : Scene σ) :
    s.Proceeds (Draw.asked backend c s) :=
  ⟨rfl, rfl, [c.traceLine], tracedSteps_append _ _⟩

namespace Draw

/-- A part that proceeds from every scene, and is broken off by nothing but a call. -/
def Proceeds (body : Draw σ α) : Prop :=
  ∀ s, ∃ outcome t, body s = ending outcome t ∧ s.Proceeds t ∧
    (outcome = .error .brokenOff → ¬ Unbroken t.journal)

theorem proceeds_edit (body : Draw σ α) (value : Store → α) (change : Store → Store)
    (hbody : ∀ s, body s = .ok (value s.store) { s with store := change s.store })
    (hframe : ∀ store, (change store).frame = store.frame)
    (hgrace : ∀ store, (change store).grace = store.grace) : Proceeds body :=
  fun s => ⟨.ok _, _, hbody s, ⟨hframe s.store, hgrace s.store, [], (List.append_nil _).symm⟩,
    nofun⟩

theorem law_proceeds (backend : Backend σ) : Law backend fun _ _ body => Proceeds body where
  steady := by
    rintro _ _ body ⟨outcome, hsteady⟩ s
    obtain ⟨t, hrun, honward⟩ := hsteady s
    refine ⟨_, t, hrun, honward.proceeds, ?_⟩
    cases outcome s.ancestors with
    | ok a => exact nofun
    | error e => exact nofun
  bind := by
    intro _ _ _ body next hbody hnext s
    obtain ⟨outcome, t, hrun, ht, hbreak⟩ := hbody s
    cases outcome with
    | error f =>
      refine ⟨.error f, t, bind_of_error body next s t f hrun, ht, ?_⟩
      rintro ⟨⟩
      exact hbreak rfl
    | ok a =>
      obtain ⟨result, u, hlast, hu, hbreak'⟩ := hnext a t
      exact ⟨result, u, bind_of_ending body next s t u a result hrun hlast, ht.trans hu, hbreak'⟩
  attempt := by
    intro _ _ body hbody s
    obtain ⟨outcome, t, hrun, ht, hbreak⟩ := hbody s
    refine ⟨_, t, attempt_of_ending body s t outcome hrun, ht, fun hcaught => hbreak ?_⟩
    rcases outcome with (e | _) | a
    · cases hcaught
    · rfl
    · cases hcaught
  within := by
    intro _ _ body e hbody s
    obtain ⟨outcome, t, hrun, ht, hbreak⟩ := hbody { s with ancestors := s.ancestors ++ [e] }
    refine ⟨outcome, _, within_of_ending e body s t outcome hrun, ?_⟩
    unfold outside
    split
    · exact ⟨⟨ht.frame, ht.grace, ht.traced⟩, hbreak⟩
    · exact ⟨⟨ht.frame, ht.grace, ht.traced⟩, hbreak⟩
  readState := fun id default => proceeds_edit _ (fun store => (store.read id default).1)
    (fun store => (store.read id default).2) (fun _ => rfl) (fun _ => rfl) fun _ => rfl
  writeState := fun id value _ => proceeds_edit _ (fun _ => ())
    (fun store => store.write id value) (fun _ => rfl) (fun _ => rfl) fun _ => rfl
  asking := by
    intro _ _ c next hnext s
    have hasked := proceeds_asked backend c s
    rcases brokenOff_or_replyOf (backend.reply c s.device) with hbroken | ⟨reply, hreply⟩
    · exact ⟨_, _, attempt_issue_bind_of_brokenOff backend c next s hbroken, hasked,
        fun _ => (brokenAtEnd_asked backend c s hbroken).not_unbroken⟩
    · obtain ⟨outcome, t, hlast, ht, hbreak⟩ := hnext reply (asked backend c s)
      have hrun := attempt_issue_bind_of_reply backend c next s reply hreply
      exact ⟨outcome, t, hrun.trans hlast, hasked.trans ht, hbreak⟩

/-- A document proceeds, and is drawn to its end unless a call breaks it off. -/
theorem document_proceeds (stage : Stage σ) (root : Element) (s : Scene σ) :
    ∃ outcome t, drawDocument stage root s = ending outcome t ∧ s.Proceeds t ∧
      (Unbroken t.journal → outcome = .ok ()) := by
  obtain ⟨outcome, t, hrun, ht, hbreak⟩ := (law_proceeds stage.backend).document True root s
  refine ⟨outcome, t, hrun, ht, fun hunbroken => ?_⟩
  rcases outcome with (err | _) | a
  · -- The refusal of a root is contained.
    exact absurd hrun (contain_ne_refused _ _ _ _ _ t err)
  · exact absurd hunbroken (hbreak rfl)
  · rfl

end Draw

/-! ### One frame -/

theorem value_tellAll (t : Tracer) (events : List Event) :
    (Event.tellAll t events).value =
      (tracedSteps events).foldl (fun t step => (t.take step).value) t := by
  induction events generalizing t with
  | nil => rfl
  | cons ev events ih =>
    rw [Event.tellAll, Logged.value_bind, ih]
    cases ev <;> rfl

namespace Renderer

/-- The account of a frame: its verdict, what it leaves of the widgets, and its trace. -/
structure Accounts (r : Renderer σ) (device : σ) (markup stylesheet : String)
    (x : Rendering σ) : Prop where
  status : x.status = some (r.verdict markup stylesheet)
  undrawn : r.verdict markup stylesheet ≠ .rendered → issued x.journal = [] ∧
    firings x.journal = [] ∧ x.renderer.store = r.store ∧ x.renderer.handlers = r.handlers ∧
      x.device = device
  drawn : r.verdict markup stylesheet = .rendered →
    x.renderer.store.frame = r.store.frame + 1 ∧ x.renderer.store.grace = r.store.grace ∧
      ∀ id w, x.renderer.store.find? id = some w →
        x.renderer.store.frame ≤ w.lastFrame + r.store.grace
  traced : ∃ lines : List String,
    tracedSteps x.journal = .started :: lines.map .line ++ [.ended, .flushed]
  told : x.renderer.tracer =
    (tracedSteps x.journal).foldl (fun t step => (t.take step).value) r.tracer

/-- A recording keeps the lines of the frame between the markers, and counts one flush more. -/
theorem Accounts.recorded {r : Renderer σ} {device : σ} {markup stylesheet : String}
    {x : Rendering σ} (h : r.Accounts device markup stylesheet x) {kept : List String} {n : Nat}
    (htracer : r.tracer = .recording kept n) :
    ∃ lines : List String,
      tracedSteps x.journal = .started :: lines.map .line ++ [.ended, .flushed] ∧
        x.renderer.tracer = .recording
          (kept ++ (TraceStep.startMarker :: (lines ++ [TraceStep.endMarker]))) (n + 1) := by
  obtain ⟨lines, hlines⟩ := h.traced
  refine ⟨lines, hlines, ?_⟩
  rw [h.told, hlines, Tracer.foldl_take_frame, htracer, Tracer.foldl_append_recording,
    Tracer.flush_recording]
  rfl

/-- A buffer is empty after the flush of a frame. -/
theorem Accounts.emptied {r : Renderer σ} {device : σ} {markup stylesheet : String}
    {x : Rendering σ} (h : r.Accounts device markup stylesheet x) {kept : List String}
    (htracer : r.tracer = .buffered kept) : x.renderer.tracer = .buffered [] := by
  obtain ⟨lines, hlines⟩ := h.traced
  rw [h.told, hlines, Tracer.foldl_take_frame, htracer, Tracer.foldl_append_buffered]
  exact Tracer.flush_buffered _

variable (r : Renderer σ) (device : σ) (markup stylesheet : String)

theorem accounts_undrawn (h : r.verdict markup stylesheet ≠ .rendered) :
    r.Accounts device markup stylesheet (r.render device markup stylesheet).value := by
  obtain ⟨notes, hnotes, hrun⟩ := r.frame_undrawn markup stylesheet h (r.scene device)
  obtain ⟨lines, hlines⟩ := exists_lines_of_incidental notes hnotes.incidental
  rw [render, hrun]
  constructor
  · rfl
  · intro _
    have hissued : issued (notes ++ [.traced .ended, .traced .flushed]) = [] := by
      rw [issued_append, issued_of_incidental notes hnotes.incidental]
      rfl
    have hfirings : firings (notes ++ [.traced .ended, .traced .flushed]) = [] := by
      rw [firings_append, firings_of_asides notes hnotes.asides]
      rfl
    exact ⟨hissued, hfirings, rfl, rfl, rfl⟩
  · exact fun hrendered => absurd hrendered h
  · have hsteps : tracedSteps (notes ++ [.traced .ended, .traced .flushed]) =
        lines.map .line ++ [.ended, .flushed] := by
      rw [tracedSteps_append, hlines]
      rfl
    exact ⟨lines, congrArg (TraceStep.started :: ·) hsteps⟩
  · exact value_tellAll r.tracer _

theorem tracedSteps_closed (s t : Scene σ) (notes : List Event) (hs : tracedSteps s.journal = [])
    (hnotes : Commentary notes) (h : (opened s notes).Proceeds t) :
    ∃ lines : List String,
      tracedSteps (closed t).journal = .started :: lines.map .line ++ [.ended, .flushed] := by
  -- The lines are those before the document, those of the document, and those of the sweep.
  obtain ⟨before, hbefore⟩ := exists_lines_of_incidental notes hnotes.incidental
  obtain ⟨drawn, hdrawn⟩ := h.traced
  obtain ⟨after, hafter⟩ :=
    exists_lines_of_incidental _ (incidental_records t.store.sweep.records)
  have hopened : tracedSteps (opened s notes).journal = .started :: before.map .line := by
    rw [opened, tracedSteps_append, hs]
    exact congrArg (TraceStep.started :: ·) hbefore
  refine ⟨before ++ drawn ++ after, ?_⟩
  rw [closed, tracedSteps_append, tracedSteps_append, hdrawn, hopened, hafter]
  simp [tracedSteps, Event.traced?]

theorem accounts_render
    (hunbroken : Unbroken (r.render device markup stylesheet).value.journal) :
    r.Accounts device markup stylesheet (r.render device markup stylesheet).value := by
  by_cases h : r.verdict markup stylesheet = .rendered
  · obtain ⟨backend, sheet, hbackend, hmarkup, hsheet⟩ :=
      r.exists_sheet_of_rendered markup stylesheet h
    obtain ⟨notes, hnotes, hrun⟩ :=
      r.frame_drawn markup stylesheet backend sheet hbackend hmarkup hsheet (r.scene device)
    obtain ⟨outcome, t, hdrawn, ht, hend⟩ := Draw.document_proceeds ⟨backend, r.config, sheet⟩
      (Markup.parseOrShow r.config.validator markup).value (opened (r.scene device) notes)
    rw [hdrawn] at hrun
    obtain rfl : outcome = .ok () := by
      cases outcome with
      | ok a => rfl
      | error f =>
        -- A frame that ends in a fault leaves the journal of its document.
        rw [render, hrun] at hunbroken
        exact hend hunbroken
    rw [render, hrun]
    constructor
    · exact congrArg some h.symm
    · exact fun hundrawn => absurd h hundrawn
    · intro _
      have hframe : (closed t).store.frame = r.store.frame + 1 := by
        rw [closed, Store.sweep_value]
        exact ht.frame
      have hgrace : (closed t).store.grace = r.store.grace := by
        rw [closed, Store.sweep_value]
        exact ht.grace
      refine ⟨hframe, hgrace, fun id w hw => ?_⟩
      have hw : (t.store.find? id).filter t.store.isFresh = some w := by
        rw [← Store.find?_sweep]
        exact hw
      have hfresh := (Option.filter_eq_some_iff.1 hw).2
      simp only [Store.isFresh, decide_eq_true_eq] at hfresh
      have htframe : t.store.frame = r.store.frame + 1 := ht.frame
      have htgrace : t.store.grace = r.store.grace := ht.grace
      show (closed t).store.frame ≤ _
      omega
    · exact tracedSteps_closed _ t notes rfl hnotes ht
    · exact value_tellAll r.tracer _
  · exact r.accounts_undrawn device markup stylesheet h

end Renderer

/-! ### Series -/

/-- One call for a frame: what the host hands to the renderer before it, the device behind the
backend, and the sources. -/
structure Request (σ : Type) where
  backend : Option (Backend σ) := none
  tracer : Option Tracer := none
  handlers : Option Handlers := none
  device : σ
  markup : String
  stylesheet : String

namespace Renderer

/-- The renderer with what a request hands to it. -/
def prepared (r : Renderer σ) (q : Request σ) : Renderer σ :=
  { r with
    backend := q.backend.or r.backend
    tracer := q.tracer.getD r.tracer
    handlers := q.handlers.getD r.handlers }

def serve (r : Renderer σ) (q : Request σ) : Rendering σ :=
  ((r.prepared q).render q.device q.markup q.stylesheet).value

def afterAll (r : Renderer σ) (requests : List (Request σ)) : Renderer σ :=
  requests.foldl (fun r q => (r.serve q).renderer) r

/-- What the frames of a series come to, one after another. -/
def served (r : Renderer σ) : List (Request σ) → List (Rendering σ)
  | [] => []
  | q :: requests => r.serve q :: (r.serve q).renderer.served requests

def statuses (r : Renderer σ) (requests : List (Request σ)) : List (Option FrameOutcome) :=
  (r.served requests).map Rendering.status

theorem served_append (r : Renderer σ) (requests more : List (Request σ)) :
    r.served (requests ++ more) = r.served requests ++ (r.afterAll requests).served more := by
  induction requests generalizing r with
  | nil => rfl
  | cons q requests ih => exact congrArg (r.serve q :: ·) (ih _)

/-- A renderer that has rendered some number of frames under a configuration. -/
structure HasRendered (config : Config) (n : Nat) (r : Renderer σ) : Prop where
  settings : r.config = config
  grace : r.store.grace = config.graceFrames
  frame : r.store.frame = n

theorem HasRendered.serve {config : Config} {n : Nat} {r : Renderer σ}
    (h : r.HasRendered config n) (q : Request σ) (hunbroken : Unbroken (r.serve q).journal) :
    (r.serve q).renderer.HasRendered config
      (n + [(r.serve q).status].count (some .rendered)) := by
  have haccounts := (r.prepared q).accounts_render q.device q.markup q.stylesheet hunbroken
  have hconfig := (r.prepared q).config_render q.markup q.stylesheet q.device
  by_cases hverdict : (r.prepared q).verdict q.markup q.stylesheet = .rendered
  · obtain ⟨hframe, hgrace, _⟩ := haccounts.drawn hverdict
    have hstatus : (r.serve q).status = some .rendered := haccounts.status.trans (by rw [hverdict])
    rw [hstatus, List.count_singleton_self]
    exact ⟨hconfig.trans h.settings, hgrace.trans h.grace, hframe.trans (congrArg (· + 1) h.frame)⟩
  · obtain ⟨_, _, hstore, _, _⟩ := haccounts.undrawn hverdict
    have hstatus : (r.serve q).status ≠ some .rendered := by
      intro hrendered
      exact hverdict (Option.some.inj (haccounts.status.symm.trans hrendered))
    have hcount : [(r.serve q).status].count (some .rendered) = 0 :=
      List.count_eq_zero.2 fun hmem => hstatus (List.mem_singleton.1 hmem).symm
    rw [hcount]
    refine ⟨hconfig.trans h.settings, ?_, ?_⟩
    · exact (congrArg Store.grace hstore).trans h.grace
    · exact (congrArg Store.frame hstore).trans h.frame

theorem HasRendered.afterAll {config : Config} {n : Nat} {r : Renderer σ}
    (h : r.HasRendered config n) (requests : List (Request σ))
    (hunbroken : ∀ x ∈ r.served requests, Unbroken x.journal) :
    (r.afterAll requests).HasRendered config
      (n + (r.statuses requests).count (some .rendered)) := by
  induction requests generalizing n r with
  | nil => exact h
  | cons q requests ih =>
    obtain ⟨hq, hmore⟩ := List.forall_mem_cons.1 hunbroken
    have hall := ih (h.serve q hq) hmore
    rw [Nat.add_assoc, ← List.count_append] at hall
    exact hall

theorem hasRendered_ofConfig (config : Config) :
    (ofConfig config : Renderer σ).HasRendered config 0 :=
  ⟨rfl, rfl, rfl⟩

/-- In every series of frames on a fresh renderer that no call breaks off, each frame comes to its
verdict. One that is not rendered issues no call, runs no handler and leaves the widgets as they
were. The number of the frame counts those that were rendered, and after one of them no entry is
older than the grace period. The trace of each has its start, lines and end, and then it is flushed
once. -/
theorem serve_afterAll (config : Config) (earlier : List (Request σ)) (q : Request σ)
    (hunbroken : ∀ x ∈ (ofConfig config).served (earlier ++ [q]), Unbroken x.journal) :
    let r := ((ofConfig config).afterAll earlier).prepared q
    let x := (r.render q.device q.markup q.stylesheet).value
    x.status = some (r.verdict q.markup q.stylesheet) ∧
      (x.status ≠ some .rendered → issued x.journal = [] ∧ firings x.journal = [] ∧
        x.renderer.store = r.store ∧ x.renderer.handlers = r.handlers ∧ x.device = q.device) ∧
      x.renderer.store.frame =
        ((ofConfig config).statuses (earlier ++ [q])).count (some .rendered) ∧
      (x.status = some .rendered → ∀ id w, x.renderer.store.find? id = some w →
        x.renderer.store.frame ≤ w.lastFrame + config.graceFrames) ∧
      (∃ lines : List String,
        tracedSteps x.journal = .started :: lines.map .line ++ [.ended, .flushed]) ∧
      x.renderer.tracer =
        (tracedSteps x.journal).foldl (fun t step => (t.take step).value) r.tracer := by
  intro r x
  rw [served_append] at hunbroken
  obtain ⟨hearlier, hlast⟩ := List.forall_mem_append.1 hunbroken
  have hlast : Unbroken x.journal := hlast _ (List.mem_singleton_self x)
  have hbefore := (hasRendered_ofConfig config).afterAll earlier hearlier
  have haccounts : r.Accounts q.device q.markup q.stylesheet x :=
    r.accounts_render q.device q.markup q.stylesheet hlast
  have hafter := (hbefore.serve q hlast).frame
  refine ⟨haccounts.status, ?_, ?_, ?_, haccounts.traced, haccounts.told⟩
  · intro hstatus
    apply haccounts.undrawn
    intro hverdict
    exact hstatus (haccounts.status.trans (congrArg some hverdict))
  · rw [statuses, served_append, List.map_append, List.count_append]
    rw [Nat.zero_add] at hafter
    exact hafter
  · intro hstatus id w hw
    have hverdict := Option.some.inj (haccounts.status.symm.trans hstatus)
    have hgrace : r.store.grace = config.graceFrames := hbefore.grace
    rw [← hgrace]
    exact (haccounts.drawn hverdict).2.2 id w hw

/-! ### A series of every kind -/

def slidingMarkup : String := "<App><SliderFloat label='w' id='w'/></App>"

/-- A request before there is a backend, one that brings a recorder, whose user slides, one for
blank markup and one under a stylesheet that cannot be read. -/
def mixedSeries : List (Request Recorder) :=
  [{ device := {}, markup := slidingMarkup, stylesheet := "" },
    { backend := some Recorder.backend, device := ({} : Recorder).slide "w" .one,
      markup := slidingMarkup, stylesheet := "" },
    { device := {}, markup := " \n", stylesheet := "" },
    { device := {}, markup := slidingMarkup, stylesheet := "Text \x7b" }]

def recordedRequest : Request Recorder :=
  { tracer := some (.recording [] 0), device := {}, markup := slidingMarkup, stylesheet := "" }

theorem serve_afterAll_mixedSeries :
    (∀ x ∈ (ofConfig { graceFrames := 0 }).served (mixedSeries ++ [recordedRequest]),
      Unbroken x.journal) ∧
      (ofConfig { graceFrames := 0 }).statuses (mixedSeries ++ [recordedRequest]) =
        [some .noBackend, some .rendered, some .emptyMarkup, some .stylesheetRejected,
          some .rendered] ∧
        (((ofConfig { graceFrames := 0 }).afterAll mixedSeries).serve
          recordedRequest).renderer.store.frame = 2 := by
  have hunbroken : ∀ x ∈ (ofConfig { graceFrames := 0 }).served
      (mixedSeries ++ [recordedRequest]), ∀ ev ∈ x.journal, ev.isBreak = false := by
    decide +kernel
  have hstatuses : (ofConfig { graceFrames := 0 }).statuses (mixedSeries ++ [recordedRequest]) =
      [some .noBackend, some .rendered, some .emptyMarkup, some .stylesheetRejected,
        some .rendered] := by decide +kernel
  obtain ⟨_, _, hframe, _⟩ :=
    serve_afterAll { graceFrames := 0 } mixedSeries recordedRequest hunbroken
  rw [hstatuses] at hframe
  exact ⟨hunbroken, hstatuses, hframe⟩

/-- A recorder that slides a slider, under markup that swaps its bounds. -/
def swappedRequest : Request Recorder :=
  { backend := some Recorder.backend, device := ({} : Recorder).slide "w" .half,
    markup := "<App><SliderFloat label='w' min='1' max='0'/></App>", stylesheet := "" }

/-- A recorder can break off a frame that nothing stands in the way of. The frame then has no
status although calls have been issued, it has moved on the number of the frame, and its trace has
neither an end nor a flush. -/
theorem exists_serve_unaccounted :
    ∃ q : Request Recorder,
      let r := (ofConfig {}).prepared q
      let x := (ofConfig {}).serve q
      r.verdict q.markup q.stylesheet = .rendered ∧ x.status = none ∧ issued x.journal ≠ [] ∧
        x.renderer.store.frame = 1 ∧
        ((ofConfig {}).statuses [q]).count (some .rendered) = 0 ∧
        .ended ∉ tracedSteps x.journal ∧ .flushed ∉ tracedSteps x.journal := by
  refine ⟨swappedRequest, ?_⟩
  decide +kernel

end Renderer
end FrameUI.Frame
