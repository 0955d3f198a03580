import FrameUI.Proofs.Frame.CallLines
import FrameUI.Proofs.Frame.Echoes
import FrameUI.Proofs.Frame.Histories
import FrameUI.Proofs.Frame.Series

/-!
# Narration

The trace of a frame narrates its calls: each has its line right before it, and all other lines
are comments. Main statement: the lines of calls stand for the calls one by one and in order, and
each determines its call (`Renderer.render_narrates`).
-/

namespace FrameUI.Frame

open FrameUI.Markup (Element)

variable {σ α β : Type}

/-! ### Refusals -/

/-- The error with which a call was refused. -/
def Event.refusal? : Event → Option CallError
  | called _ (.error (.refused err)) => some err
  | _ => none

def refusals (events : List Event) : List CallError := events.filterMap Event.refusal?

theorem refusals_append (events more : List Event) :
    refusals (events ++ more) = refusals events ++ refusals more := List.filterMap_append

theorem mem_refusals_of_prefix {events more : List Event} (h : events <+: more) (err : CallError)
    (herr : err ∈ refusals events) : err ∈ refusals more := by
  obtain ⟨rest, rfl⟩ := h
  rw [refusals_append]
  exact List.mem_append_left _ herr

/-! ### What a journal tells -/

/-- The line about an element that has failed. -/
def failureLine (tag : String) (err : CallError) : String :=
  s!"// Error: Failed to render {tag} - {err.message}"

/-- A journal in which each call has its line right before it. Any other line is a comment, or
tells of an element that has failed by an error with which a call before it was refused. -/
inductive Told (Known : String → Prop) : List Event → Prop
  | nil : Told Known []
  | remark (journal : List Event) (ev : Event) : Told Known journal → ev.issued? = none →
      ev.isRemark = true → Told Known (journal ++ [ev])
  | failure (journal : List Event) (tag : String) (err : CallError) : Told Known journal →
      Known tag → err ∈ refusals journal →
        Told Known (journal ++ [.traced (.line (failureLine tag err))])
  | call (journal : List Event) (c : Call) (reply : Except Fault c.Answer) : Told Known journal →
      Told Known (journal ++ [.traced (.line c.traceLine), .called c reply])

variable {Known : String → Prop}

theorem Told.append_remarks {journal : List Event} (h : Told Known journal)
    (events : List Event) (hissued : issued events = [])
    (hremarks : ∀ ev ∈ events, ev.isRemark = true) : Told Known (journal ++ events) := by
  induction events generalizing journal with
  | nil =>
    rw [List.append_nil]
    exact h
  | cons ev events ih =>
    have hnone := List.filterMap_eq_nil_iff.1 hissued
    obtain ⟨hev, hevents⟩ := List.forall_mem_cons.1 hremarks
    rw [List.append_cons]
    exact ih (h.remark journal ev (hnone ev List.mem_cons_self) hev)
      (List.filterMap_eq_nil_iff.2 fun e he => hnone e (List.mem_cons_of_mem _ he)) hevents

theorem isRemark_of_untraced (events : List Event) (h : tracedSteps events = []) :
    ∀ ev ∈ events, ev.isRemark = true := by
  intro ev hev
  have hnone := List.filterMap_eq_nil_iff.1 h ev hev
  cases ev with
  | traced step => cases hnone
  | _ => rfl

/-! ### Drawing -/

namespace Draw

/-- A part that keeps a journal told, provided that the errors it has met were noted before, and
that is refused only by an error that has been noted. -/
def Narrates (Known : String → Prop) (met : CallError → Prop) (body : Draw σ α) : Prop :=
  ∀ s, Told Known s.journal → (∀ err, met err → err ∈ refusals s.journal) →
    Comes body s fun outcome t => Told Known t.journal ∧ s.journal <+: t.journal ∧
      ∀ err, outcome = .error (.refused err) → err ∈ refusals t.journal

variable {met : CallError → Prop}

theorem Still.narrates {body : Draw σ α} (h : Still body) : Narrates Known met body := by
  obtain ⟨value, hstill⟩ := h
  intro s hs _
  obtain ⟨t, hrun, honward, hsteps⟩ := hstill s
  obtain ⟨events, hjournal, hincidental⟩ := honward.journal
  rw [hjournal, tracedSteps_append, List.append_right_eq_self] at hsteps
  refine ⟨.ok _, t, hrun, ?_, ?_, nofun⟩
  · rw [hjournal]
    exact hs.append_remarks events (issued_of_incidental events hincidental)
      (isRemark_of_untraced events hsteps)
  · rw [hjournal]
    exact List.prefix_append _ _

theorem narrates_bind {body : Draw σ α} {next : α → Draw σ β} (h : Narrates Known met body)
    (hnext : ∀ a, Narrates Known met (next a)) : Narrates Known met (body >>= next) := by
  intro s hs hmet
  refine (h s hs hmet).bind (fun a t ht => ?_) fun f t ht => ?_
  · obtain ⟨htold, hlater, _⟩ := ht
    have hkept := fun err herr => mem_refusals_of_prefix hlater err (hmet err herr)
    exact (hnext a t htold hkept).mono fun _ _ hu => ⟨hu.1, hlater.trans hu.2.1, hu.2.2⟩
  · obtain ⟨htold, hlater, hrefused⟩ := ht
    refine ⟨htold, hlater, ?_⟩
    rintro err ⟨⟩
    exact hrefused err rfl

theorem narrates_attempting {body : Draw σ α} {next : Except CallError α → Draw σ β}
    (h : Narrates Known met body)
    (hnext : ∀ outcome, Narrates Known (fun err => met err ∨ outcome = .error err) (next outcome)) :
    Narrates Known met (attempt body >>= next) := by
  intro s hs hmet
  refine (h s hs hmet).attempting (fun reply t ht => ?_) fun _ ht => ⟨ht.1, ht.2.1, nofun⟩
  obtain ⟨htold, hlater, hrefused⟩ := ht
  refine (hnext reply t htold ?_).mono fun _ _ hu => ⟨hu.1, hlater.trans hu.2.1, hu.2.2⟩
  rintro err (herr | rfl)
  · exact mem_refusals_of_prefix hlater err (hmet err herr)
  · exact hrefused err rfl

theorem narrates_asking (backend : Backend σ) (c : Call)
    {next : Except CallError c.Answer → Draw σ α}
    (hnext : ∀ reply, Narrates Known (fun err => met err ∨ reply = .error err) (next reply)) :
    Narrates Known met (attempt (issue backend c) >>= next) := by
  intro s hs hmet
  have hasked : Told Known (asked backend c s).journal :=
    hs.call s.journal c (backend.reply c s.device)
  have hlater : s.journal <+: (asked backend c s).journal := List.prefix_append _ _
  refine Comes.asking backend c (fun reply hreply => ?_) fun _ => ⟨hasked, hlater, nofun⟩
  refine (hnext reply _ hasked ?_).mono fun _ _ hu => ⟨hu.1, hlater.trans hu.2.1, hu.2.2⟩
  rintro err (herr | rfl)
  · exact mem_refusals_of_prefix hlater err (hmet err herr)
  · rw [asked, refusals_append, hreply]
    exact List.mem_append_right _ List.mem_cons_self

/-- Narration follows the rules of drawing. -/
theorem rules_narrates (backend : Backend σ) (Known : String → Prop) :
    Rules backend Known fun k _ body => Narrates Known k.met body where
  still h := h.narrates
  refused err next herr := fun s hs hmet => ⟨.error (.refused err), s, rfl, hs, List.prefix_rfl, by
    rintro _ ⟨⟩
    exact hmet err herr⟩
  traceFailure tag err htag herr := fun s hs hmet => ⟨.ok (), _, rfl,
    hs.failure s.journal tag err htag (hmet err herr), List.prefix_append _ _, nofun⟩
  bind := narrates_bind
  attempting := narrates_attempting
  within := by
    intro _ _ body e h s hs hmet
    have hinside := h { s with ancestors := s.ancestors ++ [e] } hs hmet
    refine Comes.within (hinside.mono fun outcome t ht => ?_)
    unfold outside
    split
    · exact ht
    · exact ht
  readState id default := fun s hs _ => ⟨.ok _, { s with store := (s.store.read id default).2 },
    rfl, hs, List.prefix_rfl, nofun⟩
  writeState id value _ := fun s hs _ => ⟨.ok (), { s with store := s.store.write id value },
    rfl, hs, List.prefix_rfl, nofun⟩
  asking c _ h := narrates_asking backend c h

theorem document_narrates (stage : Stage σ) (root : Element)
    (hknown : ∀ x ∈ root.sites [], Known x.element.tag) :
    Narrates Known (fun _ => False) (drawDocument stage root) :=
  (rules_narrates stage.backend Known).document ⟨True, fun _ => False⟩ root hknown

end Draw

/-! ### What the lines stand for -/

/-- All lines that a journal hands to a tracer. -/
def linesTold (events : List Event) : List String :=
  (tracedSteps events).filterMap TraceStep.line?

theorem linesTold_append (events more : List Event) :
    linesTold (events ++ more) = linesTold events ++ linesTold more := by
  rw [linesTold, tracedSteps_append, List.filterMap_append]
  rfl

theorem filterMap_line? (lines : List String) :
    (lines.map TraceStep.line).filterMap TraceStep.line? = lines := by
  rw [List.filterMap_map]
  exact List.filterMap_some

theorem isComment_failureLine (tag : String) (err : CallError) :
    isComment (failureLine tag err) = true := by
  have hmark := isPrefix_traceFailure tag err.message
  exact List.isPrefixOf_iff_prefix.2 ((by decide : "//".toList <+: errorMark.toList).trans hmark)

theorem isComment_traceLine (c : Call) : isComment c.traceLine = false := by
  rw [isComment, c.toList_traceLine]
  rfl

theorem Told.filter_lines {journal : List Event} (h : Told Known journal) :
    (linesTold journal).filter (fun line => !isComment line) =
      (issued journal).map fun i => i.call.traceLine := by
  induction h with
  | nil => rfl
  | remark journal ev _ hissued hremark ih =>
    have hnone : issued [ev] = [] := List.filterMap_cons_none hissued
    have hline : (linesTold [ev]).filter (fun line => !isComment line) = [] := by
      cases ev with
      | traced step =>
        cases step with
        | line text =>
          have hcomment := (Bool.and_eq_true_iff.1 hremark).1
          simp [linesTold, tracedSteps, Event.traced?, TraceStep.line?, hcomment]
        | _ => rfl
      | _ => rfl
    rw [linesTold_append, List.filter_append, hline, issued_append, hnone, List.append_nil,
      List.append_nil, ih]
  | failure journal tag err _ _ _ ih =>
    have hcomment := isComment_failureLine tag err
    have hline : (linesTold [.traced (.line (failureLine tag err))]).filter
        (fun line => !isComment line) = [] := by
      simp [linesTold, tracedSteps, Event.traced?, TraceStep.line?, hcomment]
    rw [linesTold_append, List.filter_append, hline, issued_append, List.append_nil, ih]
    simp [issued, Event.issued?]
  | call journal c reply _ ih =>
    have hcall := isComment_traceLine c
    have hline : (linesTold [.traced (.line c.traceLine), .called c reply]).filter
        (fun line => !isComment line) = [c.traceLine] := by
      simp [linesTold, tracedSteps, Event.traced?, TraceStep.line?, hcall]
    rw [linesTold_append, List.filter_append, hline, issued_append, List.map_append, ih]
    rfl

/-- Right before a call its line is traced. -/
theorem Told.line_before {journal : List Event} (h : Told Known journal)
    (before after : List Event) (c : Call) (reply : Except Fault c.Answer)
    (hjournal : journal = before ++ .called c reply :: after) :
    ∃ earlier, before = earlier ++ [.traced (.line c.traceLine)] := by
  -- The call is the last event of a step that issues one, or it was there before the step.
  induction h generalizing after with
  | nil => exact absurd hjournal.symm (List.append_ne_nil_of_right_ne_nil _ (List.cons_ne_nil _ _))
  | remark journal ev _ hissued _ ih =>
    rcases concat_eq_append_cons hjournal with ⟨_, _, rfl⟩ | ⟨rest, _, hrest⟩
    · cases hissued
    · exact ih rest hrest
  | failure journal tag err _ _ _ ih =>
    rcases concat_eq_append_cons hjournal with ⟨_, _, hlast⟩ | ⟨rest, _, hrest⟩
    · cases hlast
    · exact ih rest hrest
  | call journal c' reply' _ ih =>
    rw [List.append_cons] at hjournal
    rcases concat_eq_append_cons hjournal with ⟨_, hbefore, hlast⟩ | ⟨rest, _, hrest⟩
    · cases hlast
      exact ⟨journal, hbefore.symm⟩
    · rcases concat_eq_append_cons hrest with ⟨_, _, hlast⟩ | ⟨rest', _, hrest'⟩
      · cases hlast
      · exact ih rest' hrest'

/-! ### One frame -/

namespace Renderer

variable (r : Renderer σ) (device : σ) (markup stylesheet : String)

theorem told_render (hknown : ∀ x ∈
      (Markup.parseOrShow r.config.validator markup).value.sites [], Known x.element.tag) :
    Told Known (r.render device markup stylesheet).value.journal := by
  have hopened : ∀ notes, Commentary notes → Told Known (.traced .started :: notes) :=
    fun notes hnotes => Told.nil.append_remarks _ (issued_of_incidental notes hnotes.incidental)
      (List.forall_mem_cons.2 ⟨rfl, hnotes.remarks⟩)
  have hmarks : ∀ ev ∈ [Event.traced .ended, .traced .flushed], ev.isRemark = true := by
    intro ev hev
    rcases List.mem_pair.1 hev with rfl | rfl
    · rfl
    · rfl
  by_cases h : r.verdict markup stylesheet = .rendered
  · obtain ⟨backend, sheet, notes, outcome, t, _, hnotes, hdrawn, _, _, hjournal⟩ :=
      r.render_drawn markup stylesheet h device
    obtain ⟨ht, _⟩ := (Draw.document_narrates ⟨backend, r.config, sheet⟩ _ hknown
      (opened (r.scene device) notes) (hopened notes hnotes) nofun).of_run hdrawn
    rw [hjournal]
    cases outcome with
    | error f => exact ht
    | ok a =>
      refine ht.append_remarks _ ?_ (List.forall_mem_append.2 ⟨?_, hmarks⟩)
      · rw [issued_append, issued_of_incidental _ (incidental_records _)]
        rfl
      · exact (commentary_records _).remarks
  · obtain ⟨notes, hnotes, _, hjournal⟩ := r.render_undrawn markup stylesheet h device
    rw [hjournal]
    exact (hopened notes hnotes).append_remarks _ rfl hmarks

/-- The trace of a frame is framed by its start and, unless it is broken off, its end. -/
theorem tracedSteps_render :
    ∃ lines : List String, tracedSteps (r.render device markup stylesheet).value.journal =
      .started :: lines.map .line ++
        if (r.render device markup stylesheet).value.status.isSome then [.ended, .flushed]
        else [] := by
  by_cases h : r.verdict markup stylesheet = .rendered
  · obtain ⟨backend, sheet, notes, outcome, t, _, hnotes, hdrawn, _, hstatus, hjournal⟩ :=
      r.render_drawn markup stylesheet h device
    obtain ⟨outcome', t', hrun, ht, _⟩ := Draw.document_proceeds ⟨backend, r.config, sheet⟩ _
      (opened (r.scene device) notes)
    rw [hdrawn] at hrun
    obtain ⟨rfl, rfl⟩ := Draw.ending_inj hrun
    rw [hstatus, hjournal]
    cases outcome with
    | ok a => exact tracedSteps_closed _ t notes rfl hnotes ht
    | error f =>
      obtain ⟨before, hbefore⟩ := exists_lines_of_incidental notes hnotes.incidental
      obtain ⟨drawn, hlines⟩ := ht.traced
      have hopened : tracedSteps (opened (r.scene device) notes).journal =
          .started :: before.map .line := congrArg (TraceStep.started :: ·) hbefore
      refine ⟨before ++ drawn, ?_⟩
      rw [ended, hlines, hopened, List.map_append]
      exact (List.append_nil _).symm
  · obtain ⟨notes, hnotes, hstatus, hjournal⟩ := r.render_undrawn markup stylesheet h device
    obtain ⟨lines, hlines⟩ := exists_lines_of_incidental notes hnotes.incidental
    refine ⟨lines, ?_⟩
    rw [hstatus, hjournal, tracedSteps_append]
    exact congrArg (TraceStep.started :: · ++ [.ended, .flushed]) hlines

theorem tracer_render :
    (r.render device markup stylesheet).value.renderer.tracer =
      (tracedSteps (r.render device markup stylesheet).value.journal).foldl
        (fun t step => (t.take step).value) r.tracer := by
  rw [render]
  split
  · exact value_tellAll r.tracer _
  · exact value_tellAll r.tracer _

/-- In every frame the lines of the trace that are no comments stand for the calls, one by one and
in order, each right before its call. The line determines the call, but for the flags of a window,
if no two numbers that are passed share a text. -/
theorem render_narrates :
    let x : Rendering σ := (r.render device markup stylesheet).value
    (∃ lines : List String,
      tracedSteps x.journal =
          .started :: lines.map .line ++ (if x.status.isSome then [.ended, .flushed] else []) ∧
        lines.filter (fun line => !isComment line) =
          (issued x.journal).map fun i => i.call.traceLine) ∧
      x.renderer.tracer =
          (tracedSteps x.journal).foldl (fun t step => (t.take step).value) r.tracer ∧
      (∀ before after c reply, x.journal = before ++ .called c reply :: after →
        ∃ earlier, before = earlier ++ [.traced (.line c.traceLine)]) ∧
      ∀ c d : Call, (∀ y ∈ c.singles, ∀ z ∈ d.singles, y.text = z.text → y = z) →
        c.traceLine = d.traceLine → c.unflagged = d.unflagged := by
  intro x
  have htold : Told (fun _ => True) x.journal :=
    r.told_render device markup stylesheet fun _ _ => trivial
  obtain ⟨lines, hlines⟩ := r.tracedSteps_render device markup stylesheet
  have hmarkers : ∀ steps : List TraceStep, steps = [.ended, .flushed] ∨ steps = [] →
      (steps.filterMap TraceStep.line?).filter (fun line => !isComment line) = [] := by
    rintro _ (rfl | rfl)
    · rfl
    · rfl
  refine ⟨⟨lines, hlines, ?_⟩, r.tracer_render device markup stylesheet,
    fun before after c reply => htold.line_before before after c reply,
    fun c d hsingles hline => c.unflagged_eq_of_traceLine_eq d hline hsingles⟩
  rw [← htold.filter_lines, linesTold, hlines, List.filterMap_append, List.filter_append,
    hmarkers _ (ite_eq_or_eq _ _ _), List.append_nil, List.filterMap_cons, filterMap_line?]
  rfl

/-! ### A text like a list of arguments -/

def slidersMarkup : String :=
  "<App><SliderFloat label='a\x22, 1);' value='1' min='0' max='0.5'/>" ++
    "<Window title='a\x22, 1);'/></App>"

/-- A slider and a window whose labels look like what follows a label. The second call of the
frame is refused. The line of the slider determines its numbers. -/
theorem render_narrates_slidersMarkup :
    let x := (fitfulRenderer.render 1 slidersMarkup "").value
    let slider := Call.slider "a\x22, 1);" .one .zero .half
    let scaled := Call.slider "a\x22, 1);" (.ofRatio false 2 2) .zero (.ofRatio false 2 4)
    (issued x.journal).map (·.call) =
        [slider, .beginWindow "a\x22, 1);" .none, .endWindow] ∧
      (refusals x.journal).length = 1 ∧
      (∃ lines : List String,
        tracedSteps x.journal = .started :: lines.map .line ++ [.ended, .flushed] ∧
          lines.filter (fun line => !isComment line) =
            ["ImGui.SliderFloat(\x22a\\\x22, 1);\x22, 1, 0, 0.5);",
              "ImGui.Begin(\x22a\\\x22, 1);\x22);", "ImGui.End();"]) ∧
        (∀ y ∈ slider.singles, ∀ z ∈ scaled.singles, y.text = z.text → y = z) ∧
          slider.traceLine = scaled.traceLine ∧ slider.unflagged = scaled.unflagged := by
  intro x slider scaled
  have hcalls : (issued x.journal).map (·.call) =
      [slider, .beginWindow "a\x22, 1);" .none, .endWindow] := by decide +kernel
  have hrefused : (refusals x.journal).length = 1 := by decide +kernel
  have hstatus : x.status.isSome = true := by decide +kernel
  have hsingles : ∀ y ∈ slider.singles, ∀ z ∈ scaled.singles, y.text = z.text → y = z := by
    decide +kernel
  have hline : slider.traceLine = scaled.traceLine := by decide +kernel
  obtain ⟨⟨lines, hsteps, hlines⟩, _, _, hdetermines⟩ :=
    render_narrates fitfulRenderer 1 slidersMarkup ""
  rw [if_pos hstatus] at hsteps
  refine ⟨hcalls, hrefused, ⟨lines, hsteps, ?_⟩, hsingles, hline,
    hdetermines slider scaled hsingles hline⟩
  have htraced := congrArg (List.map Call.traceLine) hcalls
  rw [List.map_map] at htraced
  rw [hlines]
  exact htraced.trans (by decide +kernel)

end Renderer
end FrameUI.Frame
