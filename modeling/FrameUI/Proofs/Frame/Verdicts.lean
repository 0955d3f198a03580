import FrameUI.Proofs.Frame.Laws
import FrameUI.Proofs.Frame.Sessions
import FrameUI.Proofs.Text.Spans

/-!
# What a frame comes to

Whether a frame is drawn is settled before its drawing begins: by the first of three obstacles
that it meets. Main statements: a frame with an obstacle only notes what it has met
(`Renderer.frame_undrawn`), and any other is its document, drawn between an advance and a sweep of
the store (`Renderer.frame_drawn`).
-/

namespace FrameUI.Frame

open FrameUI.Markup (Element)

variable {σ : Type}

/-! ### Commentary -/

/-- Whether a line of the trace is a comment. -/
def isComment (text : String) : Bool := "//".toList.isPrefixOf text.toList

/-- What a journal says in the trace besides the calls, if it is none of the steps that frame it:
a comment on one line. -/
def Event.isRemark : Event → Bool
  | traced (.line text) => isComment text && !text.toList.contains '\n'
  | _ => true

/-- Events that are log records or comments in the trace. -/
structure Commentary (events : List Event) : Prop where
  asides : Asides events
  incidental : Incidental events
  remarks : ∀ ev ∈ events, ev.isRemark = true

theorem commentary_records (records : List Record) : Commentary (records.map .logged) := by
  refine ⟨asides_records records, incidental_records records, fun ev hev => ?_⟩
  obtain ⟨r, _, rfl⟩ := List.mem_map.1 hev
  rfl

theorem Commentary.append {events more : List Event} (h : Commentary events)
    (h' : Commentary more) : Commentary (events ++ more) :=
  ⟨(asides_append _ _).2 ⟨h.asides, h'.asides⟩,
    (incidental_append _ _).2 ⟨h.incidental, h'.incidental⟩,
    List.forall_mem_append.2 ⟨h.remarks, h'.remarks⟩⟩

theorem commentary_nil : Commentary [] :=
  ⟨asides_nil, incidental_nil, fun _ hev => absurd hev List.not_mem_nil⟩

theorem commentary_logged (r : Record) : Commentary [.logged r] :=
  ⟨List.forall_mem_singleton.2 rfl, List.forall_mem_singleton.2 rfl,
    List.forall_mem_singleton.2 rfl⟩

theorem commentary_line (text : String) (h : (Event.traced (.line text)).isRemark = true) :
    Commentary [.traced (.line text)] :=
  ⟨List.forall_mem_singleton.2 rfl, List.forall_mem_singleton.2 rfl,
    List.forall_mem_singleton.2 h⟩

/-! ### Parts that only comment -/

namespace Draw

variable {α β : Type}

/-- A part that gives a result and does no more than to note records and lines. -/
def Comments (body : Draw σ α) (a : α) : Prop :=
  ∃ notes, Commentary notes ∧ ∀ s, body s = .ok a { s with journal := s.journal ++ notes }

theorem comments_pure (a : α) : Comments (pure a : Draw σ α) a := by
  refine ⟨[], commentary_nil, fun s => ?_⟩
  rw [List.append_nil]
  rfl

theorem comments_log (level : Level) (source message : String) :
    Comments (log level source message : Draw σ Unit) () :=
  ⟨_, commentary_logged ⟨level, source, message⟩, fun _ => rfl⟩

theorem comments_trace (text : String) (h : (Event.traced (.line text)).isRemark = true) :
    Comments (trace text : Draw σ Unit) () :=
  ⟨_, commentary_line text h, fun _ => rfl⟩

theorem comments_lift (x : Logged α) : Comments (lift x : Draw σ α) x.value :=
  ⟨_, commentary_records x.records, fun _ => rfl⟩

theorem lift_bind (x : Logged α) (next : α → Draw σ β) (s : Scene σ) :
    (lift x >>= next) s = next x.value { s with journal := s.journal ++ x.records.map .logged } :=
  bind_of_ok (lift x) next s _ x.value rfl

theorem Comments.bind {body : Draw σ α} {next : α → Draw σ β} {a : α} {b : β}
    (h : Comments body a) (hnext : Comments (next a) b) : Comments (body >>= next) b := by
  obtain ⟨notes, hnotes, hbody⟩ := h
  obtain ⟨more, hmore, hrun⟩ := hnext
  refine ⟨notes ++ more, hnotes.append hmore, fun s => ?_⟩
  rw [bind_of_ok body next s _ a (hbody s), hrun, List.append_assoc]

end Draw

/-! ### Verdicts -/

namespace Renderer

variable (r : Renderer σ) (markup stylesheet : String)

/-- What a frame comes to: its first obstacle, or it is rendered. -/
def verdict : FrameOutcome :=
  if r.backend.isNone then .noBackend
  else if markup.toList.all Text.isBlank then .emptyMarkup
  else if (Style.parse? r.config.validator stylesheet).value.isNone then .stylesheetRejected
  else .rendered

theorem isEmpty_trim (s : List Char) : (Text.trim s).isEmpty = s.all Text.isBlank := by
  have hiff : (Text.trim s).isEmpty = true ↔ s.all Text.isBlank = true := by
    rw [List.isEmpty_iff, List.all_eq_true]
    constructor
    · intro h
      have hstart := Text.allBlank_of_trimEnd _ h
      cases hs : Text.trimStart s with
      | nil => exact Text.allBlank_of_trimStart s hs
      | cons c rest =>
        have hblank := hstart c (by simp [hs])
        rw [Text.not_blank_of_trimStart s c rest hs] at hblank
        cases hblank
    · intro h
      rw [Text.trim, Text.trimStart_of_allBlank s h]
      rfl
  exact Bool.eq_iff_iff.2 hiff

theorem exists_sheet_of_rendered (h : r.verdict markup stylesheet = .rendered) :
    ∃ backend sheet, r.backend = some backend ∧
      (Text.trim markup.toList).isEmpty = false ∧
        (Style.parse? r.config.validator stylesheet).value = some sheet := by
  unfold verdict at h
  rw [← isEmpty_trim] at h
  cases hbackend : r.backend with
  | none => simp [hbackend] at h
  | some backend =>
    cases hmarkup : (Text.trim markup.toList).isEmpty with
    | true => simp [hbackend, hmarkup] at h
    | false =>
      cases hsheet : (Style.parse? r.config.validator stylesheet).value with
      | none => simp [hbackend, hmarkup, hsheet] at h
      | some sheet => exact ⟨backend, sheet, rfl, rfl, rfl⟩

/-! ### Frames -/

theorem comments_frameBody (h : r.verdict markup stylesheet ≠ .rendered) :
    Draw.Comments (r.frameBody markup stylesheet) (r.verdict markup stylesheet) := by
  unfold verdict at h ⊢
  unfold frameBody
  rw [← isEmpty_trim] at h ⊢
  cases hbackend : r.backend with
  | none =>
    exact (Draw.comments_log _ _ _).bind ((Draw.comments_trace _ (by decide)).bind
      (Draw.comments_pure _))
  | some backend =>
    cases hmarkup : (Text.trim markup.toList).isEmpty with
    | true => exact (Draw.comments_log _ _ _).bind (Draw.comments_pure _)
    | false =>
      cases hsheet : (Style.parse? r.config.validator stylesheet).value with
      | some sheet => simp [hbackend, hmarkup, hsheet] at h
      | none =>
        refine (Draw.comments_lift _).bind ((Draw.comments_lift _).bind ?_)
        rw [hsheet]
        exact (Draw.comments_log _ _ _).bind ((Draw.comments_trace _ (by decide)).bind
          (Draw.comments_pure _))

/-- A frame that meets an obstacle comes to that, and notes no more than what it has met. -/
theorem frame_undrawn (h : r.verdict markup stylesheet ≠ .rendered) (s : Scene σ) :
    ∃ notes, Commentary notes ∧ r.frame markup stylesheet s = .ok (r.verdict markup stylesheet)
      { s with journal := s.journal ++
        (.traced .started :: notes ++ [.traced .ended, .traced .flushed]) } := by
  obtain ⟨notes, hnotes, hbody⟩ := r.comments_frameBody markup stylesheet h
  have hstarted : (Draw.emit (.traced .started) : Draw σ Unit) s =
      .ok () { s with journal := s.journal ++ [.traced .started] } := rfl
  refine ⟨notes, hnotes, ?_⟩
  unfold frame
  rw [Draw.bind_of_ok _ _ s _ _ hstarted, Draw.bind_of_ok _ _ _ _ _ (hbody _)]
  show EStateM.Result.ok _ _ = _
  simp

/-- The scene in which the drawing of a frame begins. -/
def opened (s : Scene σ) (notes : List Event) : Scene σ :=
  { s with
    store := s.store.advance.value
    journal := s.journal ++ .traced .started :: notes }

/-- The scene at the end of a frame that has been drawn. -/
def closed (t : Scene σ) : Scene σ :=
  { t with
    store := t.store.sweep.value
    journal := t.journal ++
      (t.store.sweep.records.map .logged ++ [.traced .ended, .traced .flushed]) }

theorem frameBody_drawn (backend : Backend σ) (sheet : Style.Sheet)
    (hbackend : r.backend = some backend) (hmarkup : (Text.trim markup.toList).isEmpty = false)
    (hsheet : (Style.parse? r.config.validator stylesheet).value = some sheet) (s : Scene σ) :
    ∃ notes, Commentary notes ∧ r.frameBody markup stylesheet s =
      (do
        drawDocument ⟨backend, r.config, sheet⟩
          (Markup.parseOrShow r.config.validator markup).value
        sweepStore
        pure .rendered : Draw σ FrameOutcome)
        { s with store := s.store.advance.value, journal := s.journal ++ notes } := by
  have hnotes := (commentary_records (Markup.parseOrShow r.config.validator markup).records).append
    ((commentary_records (Style.parse? r.config.validator stylesheet).records).append
      (commentary_records s.store.advance.records))
  refine ⟨_, hnotes, ?_⟩
  unfold frameBody drawSources
  rw [hbackend]
  simp only [hmarkup, Bool.false_eq_true, if_false]
  rw [Draw.lift_bind, Draw.lift_bind, hsheet]
  simp only
  rw [Draw.bind_of_ok advanceStore _ _ _ () rfl, ← List.append_assoc, ← List.append_assoc]

/-- A frame without an obstacle is its document, between an advance and a sweep of the store. -/
theorem frame_drawn (backend : Backend σ) (sheet : Style.Sheet)
    (hbackend : r.backend = some backend) (hmarkup : (Text.trim markup.toList).isEmpty = false)
    (hsheet : (Style.parse? r.config.validator stylesheet).value = some sheet) (s : Scene σ) :
    ∃ notes, Commentary notes ∧ r.frame markup stylesheet s =
      match drawDocument ⟨backend, r.config, sheet⟩
          (Markup.parseOrShow r.config.validator markup).value (opened s notes) with
      | .ok _ t => .ok .rendered (closed t)
      | .error f t => .error f t := by
  have hstarted : (Draw.emit (.traced .started) : Draw σ Unit) s =
      .ok () { s with journal := s.journal ++ [.traced .started] } := rfl
  obtain ⟨notes, hnotes, hbody⟩ := r.frameBody_drawn markup stylesheet backend sheet hbackend
    hmarkup hsheet { s with journal := s.journal ++ [.traced .started] }
  have hopened : opened s notes = { s with
      store := s.store.advance.value
      journal := s.journal ++ [.traced .started] ++ notes } := by
    rw [opened, List.append_assoc]
    rfl
  refine ⟨notes, hnotes, ?_⟩
  unfold frame
  rw [Draw.bind_of_ok _ _ s _ _ hstarted, hopened]
  cases hdrawn : drawDocument ⟨backend, r.config, sheet⟩
      (Markup.parseOrShow r.config.validator markup).value
        { s with
          store := s.store.advance.value
          journal := s.journal ++ [.traced .started] ++ notes } with
  | ok a t =>
    rw [Draw.bind_of_ok _ _ _ _ _ hdrawn] at hbody
    rw [Draw.bind_of_ok _ _ _ _ _ hbody]
    show EStateM.Result.ok _ _ = EStateM.Result.ok _ _
    simp [closed]
  | error f t =>
    rw [Draw.bind_of_error _ _ _ _ _ hdrawn] at hbody
    exact Draw.bind_of_error _ _ _ _ _ hbody

/-- The scene in which a frame ends whose document has come to an outcome. -/
def ended (outcome : Except Fault Unit) (t : Scene σ) : Scene σ :=
  match outcome with
  | .ok _ => closed t
  | .error _ => t

theorem frame_of_drawn (backend : Backend σ) (sheet : Style.Sheet)
    (hbackend : r.backend = some backend) (hmarkup : (Text.trim markup.toList).isEmpty = false)
    (hsheet : (Style.parse? r.config.validator stylesheet).value = some sheet) (s : Scene σ) :
    ∃ notes, Commentary notes ∧ ∀ outcome t, drawDocument ⟨backend, r.config, sheet⟩
        (Markup.parseOrShow r.config.validator markup).value (opened s notes) =
          Draw.ending outcome t →
      r.frame markup stylesheet s =
        Draw.ending (outcome.map fun _ => .rendered) (ended outcome t) := by
  obtain ⟨notes, hnotes, hrun⟩ :=
    r.frame_drawn markup stylesheet backend sheet hbackend hmarkup hsheet s
  refine ⟨notes, hnotes, fun outcome t hdrawn => ?_⟩
  rw [hrun, hdrawn]
  cases outcome with
  | ok a => rfl
  | error f => rfl

theorem render_of_drawn (backend : Backend σ) (sheet : Style.Sheet)
    (hbackend : r.backend = some backend) (hmarkup : (Text.trim markup.toList).isEmpty = false)
    (hsheet : (Style.parse? r.config.validator stylesheet).value = some sheet) (device : σ) :
    ∃ notes, Commentary notes ∧ ∀ outcome t, drawDocument ⟨backend, r.config, sheet⟩
        (Markup.parseOrShow r.config.validator markup).value (opened (r.scene device) notes) =
          Draw.ending outcome t →
      (r.render device markup stylesheet).value.status =
          outcome.toOption.map (fun _ => .rendered) ∧
        (r.render device markup stylesheet).value.journal = (ended outcome t).journal ∧
          (r.render device markup stylesheet).value.renderer.store = (ended outcome t).store := by
  obtain ⟨notes, hnotes, hframe⟩ :=
    r.frame_of_drawn markup stylesheet backend sheet hbackend hmarkup hsheet (r.scene device)
  refine ⟨notes, hnotes, fun outcome t hdrawn => ?_⟩
  obtain ⟨hstatus, hjournal, hstore, _⟩ :=
    r.render_of_frame device markup stylesheet (hframe outcome t hdrawn)
  refine ⟨?_, hjournal, hstore⟩
  rw [hstatus]
  cases outcome <;> rfl

/-- A frame that is drawn comes to the outcome of its document, which nothing but a call that is
broken off keeps from its end. -/
theorem render_drawn (h : r.verdict markup stylesheet = .rendered) (device : σ) :
    ∃ backend sheet notes outcome t, r.backend = some backend ∧ Commentary notes ∧
      drawDocument ⟨backend, r.config, sheet⟩ (Markup.parseOrShow r.config.validator markup).value
          (opened (r.scene device) notes) = Draw.ending outcome t ∧
        (outcome = .ok () ∨ outcome = .error .brokenOff) ∧
          (r.render device markup stylesheet).value.status =
              outcome.toOption.map (fun _ => .rendered) ∧
            (r.render device markup stylesheet).value.journal = (ended outcome t).journal := by
  obtain ⟨backend, sheet, hbackend, hmarkup, hsheet⟩ :=
    r.exists_sheet_of_rendered markup stylesheet h
  obtain ⟨notes, hnotes, hrender⟩ :=
    r.render_of_drawn markup stylesheet backend sheet hbackend hmarkup hsheet device
  obtain ⟨outcome, t, hdrawn⟩ := Draw.exists_ending (drawDocument ⟨backend, r.config, sheet⟩
    (Markup.parseOrShow r.config.validator markup).value) (opened (r.scene device) notes)
  obtain ⟨hstatus, hjournal, _⟩ := hrender outcome t hdrawn
  refine ⟨backend, sheet, notes, outcome, t, hbackend, hnotes, hdrawn, ?_, hstatus, hjournal⟩
  rcases outcome with (err | _) | _
  · -- The refusal of a root is contained.
    exact absurd hdrawn (Draw.contain_ne_refused _ _ _ _ _ t err)
  · exact .inr rfl
  · exact .inl rfl

/-- A frame that is not drawn only comments on that. -/
theorem render_undrawn (h : r.verdict markup stylesheet ≠ .rendered) (device : σ) :
    ∃ notes, Commentary notes ∧
      (r.render device markup stylesheet).value.status = some (r.verdict markup stylesheet) ∧
        (r.render device markup stylesheet).value.journal =
          .traced .started :: notes ++ [.traced .ended, .traced .flushed] := by
  obtain ⟨notes, hnotes, hrun⟩ := r.frame_undrawn markup stylesheet h (r.scene device)
  have hended : r.frame markup stylesheet (r.scene device) =
    Draw.ending (.ok (r.verdict markup stylesheet)) _ := hrun
  obtain ⟨hstatus, hjournal, _⟩ := r.render_of_frame device markup stylesheet hended
  exact ⟨notes, hnotes, hstatus, hjournal⟩

theorem backend_render (device : σ) :
    (r.render device markup stylesheet).value.renderer.backend = r.backend := by
  rw [render]
  split
  · rfl
  · rfl

theorem config_render (device : σ) :
    (r.render device markup stylesheet).value.renderer.config = r.config := by
  rw [render]
  split
  · rfl
  · rfl

end Renderer
end FrameUI.Frame
