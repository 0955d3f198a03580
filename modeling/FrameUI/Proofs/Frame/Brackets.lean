import FrameUI.Proofs.Frame.Issuing
import FrameUI.Proofs.Frame.Manners

/-!
# The brackets of a frame

Every widget issues drawn calls, however many of them are refused, and so do trees of widgets
at whatever depth. Main statement: the calls of one frame are well bracketed, whatever the
backend answers.
-/

namespace FrameUI.Frame

open FrameUI.Markup (Element Node)
open FrameUI.Style (ComputedStyle Rgba)

variable {σ α : Type}

/-! ### Colours -/

/-- The pushes of a widget: every call is a push, and the accepted ones are counted. -/
theorem issues_pushColor (stage : Stage σ) (slot : ColorSlot)
    (color : Rgba) : Draw.Issues (pushColor stage slot color) fun outcome calls =>
      (∀ i ∈ calls, i.call.isPush) ∧ outcome = .ok (pushed calls) := by
  have hissue := Draw.issues_issue stage.backend (.pushColor slot color)
  refine Draw.Issues.attempt_bind _ _ _ _ hissue ?_
  intro reply before heq
  subst heq
  have hpushes : ∀ i ∈ [(⟨.pushColor slot color, Draw.replyOf reply⟩ : Issued)],
      i.call.isPush := by
    simp [Call.isPush]
  cases reply with
  | ok a => exact Draw.issues_pure _ _ ⟨hpushes, rfl⟩
  | error err =>
    refine Draw.Quiet.bind _ _ _ (Draw.quiet_log _ _ _) fun _ => ?_
    exact Draw.issues_pure _ _ ⟨hpushes, rfl⟩

/-- What follows the pushes knows how many of them were accepted. -/
theorem issues_pushes_bind (body : Draw σ Nat) (next : Nat → Draw σ α)
    (Q : Except CallError α → List Issued → Prop)
    (h : Draw.Issues body fun outcome calls =>
      (∀ i ∈ calls, i.call.isPush) ∧ outcome = .ok (pushed calls))
    (hnext : ∀ pushes, (∀ i ∈ pushes, i.call.isPush) →
      Draw.Issues (next (pushed pushes)) fun outcome calls => Q outcome (pushes ++ calls)) :
    Draw.Issues (body >>= next) Q := by
  refine Draw.Issues.bind _ _ _ _ h ?_ ?_
  · intro n pushes hparts
    obtain ⟨hpushes, hn⟩ := hparts
    obtain rfl : n = pushed pushes := Except.ok.inj hn
    exact hnext pushes hpushes
  · intro e calls hparts
    obtain ⟨_, he⟩ := hparts
    cases he

theorem issues_pushColors (stage : Stage σ)
    (colors : List (ColorSlot × Rgba)) :
    Draw.Issues (pushColors stage colors) fun outcome calls =>
      (∀ i ∈ calls, i.call.isPush) ∧ outcome = .ok (pushed calls) := by
  induction colors with
  | nil => exact Draw.issues_pure _ _ ⟨by simp, rfl⟩
  | cons first rest ih =>
    obtain ⟨slot, color⟩ := first
    refine issues_pushes_bind _ _ _ (issues_pushColor stage slot color) ?_
    intro here hhere
    refine issues_pushes_bind _ _ _ ih ?_
    intro more hmore
    refine Draw.issues_pure _ _ ⟨?_, ?_⟩
    · rw [List.append_nil]
      exact fun i hi => (List.mem_append.1 hi).elim (hhere i) (hmore i)
    · rw [List.append_nil, pushed_append]

theorem issues_popColors (stage : Stage σ) (n : Nat) :
    Draw.Issues (popColors stage n) fun _ calls => PopsOff n calls := by
  unfold popColors
  split
  · rename_i hzero
    exact Draw.issues_pure _ _ (Or.inl ⟨hzero, rfl⟩)
  · apply Draw.Issues.mono _ _ _ (Draw.issues_issue stage.backend (.popColors n))
    intro outcome calls heq
    subst heq
    exact Or.inr ⟨_, rfl⟩

/-- Popping and whatever stops the widget after it. -/
theorem issues_popColors_bind (stage : Stage σ) (n : Nat)
    (next : Unit → Draw σ α) (hnext : ∀ u, Draw.Silent (next u)) :
    Draw.Issues (popColors stage n >>= next) fun _ calls => PopsOff n calls := by
  apply Draw.Issues.bind _ _ _ _ (issues_popColors stage n)
  · intro u before hbefore
    apply Draw.Issues.mono _ _ _ (hnext u)
    intro _ _ heq
    subst heq
    rw [List.append_nil]
    exact hbefore
  · intro _ calls hcalls
    exact hcalls

/-! ### Widgets -/

theorem quiet_heed (e : Element) (id : String) (c : Call) (reply : Except CallError c.Answer) :
    Draw.Quiet (Draw.heed e id c reply : Draw σ Unit) := by
  unfold Draw.heed
  split
  · exact Draw.Quiet.bind _ _ _ (Draw.quiet_writeState id _) fun _ =>
      Draw.quiet_notify e "onChange"
  · exact Draw.quiet_pure ()

theorem quiet_heedClick (e : Element) (reply : Except CallError Bool) :
    Draw.Quiet (Draw.heedClick e reply : Draw σ Unit) := by
  rcases reply with err | _ | _
  · exact Draw.quiet_pure ()
  · exact Draw.quiet_pure ()
  · exact Draw.quiet_notify e "onClick"

/-- A call between pushes and pops: the calls of every widget that is drawn in colours. -/
theorem draws_painted (stage : Stage σ) (colors : List (ColorSlot × Rgba)) (popsFirst : Bool)
    (c : Call) (hplain : c.isPlain) (react : Except CallError c.Answer → Draw σ Unit)
    (hreact : ∀ reply, Draw.Quiet (react reply)) :
    Draw.Draws (painted stage colors popsFirst c react) := by
  refine issues_pushes_bind _ _ _ (issues_pushColors stage colors) ?_
  intro pushes hpushes
  refine Draw.Issues.attempt_bind _ _ _ _ (Draw.issues_issue stage.backend c) ?_
  intro reply before heq
  subst heq
  have hdrawn : ∀ body : Draw σ Unit,
      (Draw.Issues body fun _ calls => PopsOff (pushed pushes) calls) →
        Draw.Issues body fun _ calls =>
          Drawn (pushes ++ ([⟨c, Draw.replyOf reply⟩] ++ calls)) := by
    intro body hbody
    apply Draw.Issues.mono _ _ _ hbody
    intro _ pops hpops
    exact .widget pushes pops ⟨c, Draw.replyOf reply⟩ hpushes hplain hpops
  cases popsFirst with
  | true =>
    refine hdrawn _ (issues_popColors_bind stage _ _ fun _ => ?_)
    exact Draw.Silent.bind _ _ (Draw.silent_rethrow reply) fun _ => (hreact reply).silent
  | false =>
    refine hdrawn _ (Draw.Quiet.bind _ _ _ (hreact reply) fun _ => ?_)
    refine issues_popColors_bind stage _ _ fun _ => ?_
    exact Draw.Silent.bind _ _ (Draw.silent_rethrow reply) fun _ => (Draw.quiet_pure ()).silent

section Widgets

variable (stage : Stage σ) (e : Element) (style : ComputedStyle)

theorem draws_setItemWidth : Draw.Draws (setItemWidth stage style) := by
  unfold setItemWidth
  split
  · exact Draw.draws_plain stage.backend _ rfl
  · exact (Draw.quiet_pure _).draws

theorem draws_setWidth (f : Field) : Draw.Draws (f.setWidth stage style) := by
  unfold Field.setWidth
  split
  · exact draws_setItemWidth stage style
  · exact (Draw.quiet_pure _).draws

theorem draws_setWindowSize : Draw.Draws (setWindowSize stage style) := by
  unfold setWindowSize
  split
  · exact Draw.draws_plain stage.backend _ rfl
  · exact (Draw.quiet_pure _).draws

theorem draws_tell (c : Call) (hplain : c.isPlain) : Draw.Draws (Draw.tell stage.backend c) :=
  Draw.Draws.bind _ _ (Draw.draws_plain stage.backend c hplain) fun _ => (Draw.quiet_pure _).draws

theorem draws_button : Draw.Draws (drawButton stage e style) := by
  rw [drawButton_eq]
  refine Draw.Draws.bind _ _ (draws_setItemWidth stage style) fun _ => ?_
  exact draws_painted stage _ _ _ rfl _ (quiet_heedClick e)

theorem draws_field (f : Field) : Draw.Draws (f.draw stage e style) := by
  refine Draw.Quiet.bind _ _ _ (Draw.quiet_keyOf e) fun id => ?_
  refine Draw.Quiet.bind _ _ _ (Draw.quiet_readState id _) fun stored => ?_
  refine Draw.Draws.bind _ _ (draws_setWidth stage style f) fun _ => ?_
  exact draws_painted stage _ _ _ (f.plain stored) _ (quiet_heed e id _)

/-- The calls from inside a window to its end: drawn calls, pops and one end. -/
def ClosesWindow (n : Nat) (calls : List Issued) : Prop :=
  ∃ inner pops stop, Drawn inner ∧ PopsOff n pops ∧ stop.call = .endWindow ∧
    calls = inner ++ (pops ++ [stop])

theorem issues_closeWindow (n : Nat) (opened : Except CallError Bool) :
    Draw.Issues (closeWindow stage n opened) fun _ calls => ClosesWindow n calls := by
  refine Draw.Issues.attempt_bind _ _ _ _ (issues_popColors stage n) ?_
  intro popped pops hpops
  refine Draw.Issues.attempt_bind _ _ _ _ (Draw.issues_issue stage.backend _) ?_
  intro ended stop heq
  subst heq
  have hsilent : Draw.Silent (do
      let _ ← Draw.rethrow opened
      Draw.rethrow popped
      Draw.rethrow ended : Draw σ Unit) := by
    refine Draw.Silent.bind _ _ (Draw.silent_rethrow opened) fun _ => ?_
    refine Draw.Silent.bind _ _ (Draw.silent_rethrow popped) fun _ => ?_
    exact Draw.silent_rethrow ended
  apply Draw.Issues.mono _ _ _ hsilent
  intro _ _ heq
  subst heq
  rw [List.append_nil]
  exact ⟨[], pops, ⟨.endWindow, Draw.replyOf ended⟩, .nothing, hpops, rfl, rfl⟩

theorem issues_body_closeWindow (n : Nat) (opened : Except CallError Bool) (body : Draw σ Unit)
    (hbody : Draw.Completes body) :
    Draw.Issues (body >>= fun _ => closeWindow stage n opened) fun _ calls =>
      ClosesWindow n calls := by
  refine Draw.Issues.bind _ _ _ _ hbody ?_ ?_
  · intro _ before hparts
    obtain ⟨_, hbefore⟩ := hparts
    apply Draw.Issues.mono _ _ _ (issues_closeWindow stage n opened)
    intro _ _ hparts
    obtain ⟨inner, pops, stop, hinner, hpops, hstop, rfl⟩ := hparts
    refine ⟨before ++ inner, pops, stop, .append before inner hbefore hinner, hpops, hstop, ?_⟩
    rw [List.append_assoc]
  · intro _ _ hparts
    obtain ⟨⟨a, ha⟩, _⟩ := hparts
    cases ha

/-- A window is bracketed around its children, whichever of its calls are refused. -/
theorem draws_window (children : Draw σ Unit) (hchildren : Draw.Draws children) :
    Draw.Draws (drawWindow stage e style children) := by
  rw [drawWindow_eq]
  refine Draw.Draws.bind _ _ (draws_setWindowSize stage style) fun _ => ?_
  refine issues_pushes_bind _ _ _ (issues_pushColors stage _) ?_
  intro pushes hpushes
  refine Draw.Issues.attempt_bind _ _ _ _ (Draw.issues_issue stage.backend _) ?_
  intro opened start hcall
  have hinside : Draw.Completes (inWindow e children opened) := by
    rcases opened with err | _ | _
    · exact (Draw.quiet_pure ()).completes
    · exact (Draw.quiet_pure ()).completes
    · exact Draw.Draws.contain _ _ e children hchildren
  apply Draw.Issues.mono _ _ _ (issues_body_closeWindow stage (pushed pushes) opened _ hinside)
  intro _ _ hparts
  obtain ⟨inner, pops, stop, hinner, hpops, hstop, rfl⟩ := hparts
  rw [hcall]
  exact .window pushes inner pops _ stop _ _ hpushes rfl hinner hpops hstop

theorem draws_widget (children : Draw σ Unit) (hchildren : Draw.Draws children) :
    Draw.Draws (drawWidget stage e style children) := by
  have hwithin := Draw.Draws.within e children hchildren
  rw [drawWidget_eq]
  refine Draw.Quiet.bind _ _ _ Draw.quiet_get fun around => ?_
  refine Draw.Quiet.bind _ _ _ (Draw.quiet_emit _ rfl) fun _ => ?_
  refine Draw.Quiet.bind _ _ _ (Draw.quiet_log _ _ _) fun _ => ?_
  cases manner stage.config e style with
  | nothing => exact (Draw.quiet_pure _).draws
  | warning => exact (Draw.quiet_log _ _ _).draws
  | inside => exact hwithin
  | window => exact draws_window stage e style _ hwithin
  | button => exact draws_button stage e style
  | call c hplain _ => exact draws_tell stage c hplain
  | field f => exact draws_field stage e style f

end Widgets

/-! ### Trees -/

theorem draws_run (stage : Stage σ) (run : String) : Draw.Draws (drawRun stage run) := by
  rw [drawRun_eq]
  split
  · exact (Draw.quiet_pure _).draws
  · exact draws_tell stage _ rfl

/-- An element that stands in a tree issues drawn calls and is never refused. -/
theorem completes_styled (stage : Stage σ) (source report : String) (e : Element)
    (children : Draw σ Unit) (hchildren : Draw.Draws children) :
    Draw.Completes (drawStyled stage source report e children) := by
  refine Draw.Quiet.bind _ _ _ (Draw.quiet_styleOf stage.sheet e) fun style => ?_
  exact Draw.Draws.contain _ _ e _ (draws_widget stage e style children hchildren)

theorem walk_draws (stage : Stage σ) : Walk stage stage fun _ body _ => Draw.Draws body where
  nothing := (Draw.quiet_pure _).draws
  run := draws_run stage
  next h hnext := Draw.Draws.bind _ _ h fun _ => hnext
  element source report e _ _ h := (completes_styled stage source report e _ h).draws

/-! ### Frames -/

theorem completes_document (stage : Stage σ) (root : Element) :
    Draw.Completes (drawDocument stage root) := by
  rw [drawDocument_eq]
  exact completes_styled stage _ _ root _ ((walk_draws stage).nodes root.children)

theorem quiet_changeStore (change : Store → Logged Store) :
    Draw.Quiet (do
      let s ← get
      let store ← Draw.lift (change s.store)
      modify fun t => { t with store := store } : Draw σ Unit) := by
  refine Draw.Quiet.bind _ _ _ Draw.quiet_get fun s => ?_
  refine Draw.Quiet.bind _ _ _ (Draw.quiet_lift _) fun store => ?_
  exact Draw.quiet_modify _ fun _ => rfl

namespace Renderer

variable (r : Renderer σ) (device : σ) (markup stylesheet : String)

theorem render_of_frame {outcome : Except Fault FrameOutcome} {t : Scene σ}
    (h : r.frame markup stylesheet (r.scene device) = Draw.ending outcome t) :
    (r.render device markup stylesheet).value.status = outcome.toOption ∧
      (r.render device markup stylesheet).value.journal = t.journal ∧
        (r.render device markup stylesheet).value.renderer.store = t.store ∧
          (r.render device markup stylesheet).value.renderer.handlers = t.handlers := by
  rw [render, h]
  cases outcome with
  | ok status => exact ⟨rfl, rfl, rfl, rfl⟩
  | error f => exact ⟨rfl, rfl, rfl, rfl⟩

theorem completes_drawSources (backend : Backend σ) :
    Draw.Completes (r.drawSources backend markup stylesheet) := by
  refine Draw.Quiet.bind _ _ _ (Draw.quiet_lift _) fun root => ?_
  refine Draw.Quiet.bind _ _ _ (Draw.quiet_lift _) fun sheet? => ?_
  cases sheet? with
  | none =>
    apply Draw.Quiet.completes
    refine Draw.Quiet.bind _ _ _ (Draw.quiet_log _ _ _) fun _ => ?_
    exact Draw.Quiet.bind _ _ _ (Draw.quiet_trace _) fun _ => Draw.quiet_pure _
  | some sheet =>
    refine Draw.Quiet.bind _ _ _ (quiet_changeStore Store.advance) fun _ => ?_
    refine Draw.Completes.bind _ _ (completes_document _ root) fun _ => ?_
    apply Draw.Quiet.completes
    exact Draw.Quiet.bind _ _ _ (quiet_changeStore Store.sweep) fun _ => Draw.quiet_pure _

theorem completes_frameBody : Draw.Completes (r.frameBody markup stylesheet) := by
  unfold frameBody
  split
  · apply Draw.Quiet.completes
    refine Draw.Quiet.bind _ _ _ (Draw.quiet_log _ _ _) fun _ => ?_
    exact Draw.Quiet.bind _ _ _ (Draw.quiet_trace _) fun _ => Draw.quiet_pure _
  · split
    · apply Draw.Quiet.completes
      exact Draw.Quiet.bind _ _ _ (Draw.quiet_log _ _ _) fun _ => Draw.quiet_pure _
    · exact r.completes_drawSources markup stylesheet _

theorem completes_frame : Draw.Completes (r.frame markup stylesheet) := by
  refine Draw.Quiet.bind _ _ _ (Draw.quiet_emit _ rfl) fun _ => ?_
  refine Draw.Completes.bind _ _ (r.completes_frameBody markup stylesheet) fun status => ?_
  apply Draw.Quiet.completes
  refine Draw.Quiet.bind _ _ _ (Draw.quiet_emit _ rfl) fun _ => ?_
  exact Draw.Quiet.bind _ _ _ (Draw.quiet_emit _ rfl) fun _ => Draw.quiet_pure _

/-- Whatever the backend answers to its calls, a frame that none of them breaks off comes to an
end, and its calls are well bracketed. -/
theorem render_wellBracketed
    (hunbroken : Unbroken (r.render device markup stylesheet).value.journal) :
    (r.render device markup stylesheet).value.status.isSome ∧
      WellBracketed (issued (r.render device markup stylesheet).value.journal) := by
  obtain ⟨outcome, t, hrun⟩ :=
    Draw.exists_ending (r.frame markup stylesheet) (r.scene device)
  obtain ⟨hstatus, hjournal, _⟩ := r.render_of_frame device markup stylesheet hrun
  rw [hjournal] at hunbroken
  obtain ⟨reply, rfl, calls, hcalls, ⟨status, rfl⟩, hdrawn⟩ :=
    (r.completes_frame markup stylesheet (r.scene device)).exists_of_unbroken hrun hunbroken
  have hissued : issued t.journal = calls := hcalls
  rw [hstatus, hjournal, hissued]
  exact ⟨rfl, wellBracketed_of_drawn calls hdrawn⟩

/-- An answer to every call: windows are open, and everything is clicked or changed. -/
def eagerAnswer : (call : Call) → call.Answer
  | .beginWindow .. => true
  | .button .. => true
  | .inputText _ _ buffer _ => ⟨true, buffer⟩
  | .slider _ value _ _ => ⟨true, value⟩
  | .checkbox _ checked => ⟨true, !checked⟩
  | .endWindow | .text .. | .textColored .. | .sameLine .. | .spacing | .separator
  | .windowSize .. | .itemWidth .. | .pushColor .. | .popColors .. => ()

/-- A backend that refuses every third call. -/
def fitfulBackend : Backend Nat where
  answer call count :=
    if count % 3 = 2 then .error (.refused ⟨call.name, "not this time"⟩) (count + 1)
    else .ok (eagerAnswer call) (count + 1)

/-- A renderer of that backend. -/
def fitfulRenderer : Renderer Nat :=
  { (ofConfig {} : Renderer Nat) with backend := some fitfulBackend }

/-- Two windows, one in the other, and a button, all in colours. -/
def nestedWindows : String := "<App><Window><Button>Go</Button><Window>in</Window></Window></App>"

def windowColors : String :=
  "Window \x7b text-color: 0xFFFFFFFF; \x7d Button \x7b text-color: 0x000000FF; \x7d"

theorem render_fitful_wellBracketed :
    Unbroken (fitfulRenderer.render 0 nestedWindows windowColors).value.journal ∧
      WellBracketed
        (issued (fitfulRenderer.render 0 nestedWindows windowColors).value.journal) := by
  have hunbroken :
      Unbroken (fitfulRenderer.render 0 nestedWindows windowColors).value.journal := by
    decide +kernel
  exact ⟨hunbroken, (render_wellBracketed fitfulRenderer 0 _ _ hunbroken).2⟩

end Renderer
end FrameUI.Frame
