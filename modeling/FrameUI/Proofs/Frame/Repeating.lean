import FrameUI.Proofs.Frame.Contained
import FrameUI.Proofs.Frame.Retracing
import FrameUI.Proofs.Frame.Series

/-!
# Rendering the same again

A host renders the same sources in one frame after another. Main statement: if the replies of the
backend depend only on what it has been asked in the frame, and no change is reported in the first
frame, every frame issues the calls of the first (`Renderer.issued_replay`).
-/

namespace FrameUI.Frame

open FrameUI.Markup (Element)

variable {σ : Type}

/-- From a device on, the replies of a backend are those of a function of the calls so far. -/
def Backend.AnswersBy (b : Backend σ) (answers : List Call → (c : Call) → Except Fault c.Answer)
    (device : σ) : Prop :=
  ∀ calls c, b.reply c (b.hearing device calls) = answers calls c

theorem Backend.AnswersBy.alike {b : Backend σ}
    {answers : List Call → (c : Call) → Except Fault c.Answer} {device device' : σ}
    (h : b.AnswersBy answers device) (h' : b.AnswersBy answers device') : b.Alike device device' :=
  fun calls c => (h' calls c).trans (h calls c).symm

theorem unchanging_of_issued_eq {events more : List Event} (h : issued more = issued events)
    (hevents : Unchanging events) : Unchanging more := by
  intro ev hev
  cases ev with
  | called c reply =>
    have hmem : (⟨c, reply⟩ : Issued) ∈ issued events := by
      rw [← h]
      exact List.mem_filterMap.2 ⟨_, hev, rfl⟩
    obtain ⟨ev', hev', hissued⟩ := List.mem_filterMap.1 hmem
    cases ev' with
    | called c' reply' =>
      cases hissued
      exact hevents _ hev'
    | _ => cases hissued
  | _ => rfl

namespace Renderer

/-! ### Two frames -/

theorem issued_opened (s : Scene σ) (notes : List Event) (h : Commentary notes) :
    issued (opened s notes).journal = issued s.journal := by
  rw [opened, issued_append]
  have hnotes : issued (.traced .started :: notes) = [] := issued_of_incidental notes h.incidental
  rw [hnotes, List.append_nil]

theorem issued_ended (outcome : Except Fault Unit) (t : Scene σ) :
    issued (ended outcome t).journal = issued t.journal := by
  cases outcome with
  | error f => rfl
  | ok a =>
    have hrecords := issued_of_incidental _ (incidental_records t.store.sweep.records)
    rw [ended, closed, issued_append, issued_append, hrecords]
    exact List.append_nil _

theorem recalls_ended (outcome : Except Fault Unit) (t : Scene σ) :
    (ended outcome t).store.advance.value.Recalls t.store := by
  cases outcome with
  | ok a => exact t.store.recalls_advance_sweep
  | error f => exact t.store.recalls_advance

theorem journal_ended (outcome : Except Fault Unit) (t : Scene σ) :
    t.journal <+: (ended outcome t).journal := by
  cases outcome with
  | ok a => exact List.prefix_append _ _
  | error f => exact List.prefix_refl _

variable (r : Renderer σ) (markup stylesheet : String)

theorem verdict_eq (r' : Renderer σ) (hconfig : r'.config = r.config)
    (hbackend : r'.backend = r.backend) :
    r'.verdict markup stylesheet = r.verdict markup stylesheet := by
  unfold verdict
  rw [hconfig, hbackend]

/-- A frame that reports no change is drawn once more by the same calls with the same replies. -/
theorem issued_render_again (device device' : σ)
    (halike : ∀ b ∈ r.backend, b.Alike device device')
    (hsame : Unchanging (r.render device markup stylesheet).value.journal) :
    issued ((r.render device markup stylesheet).value.renderer.render device' markup
        stylesheet).value.journal =
      issued (r.render device markup stylesheet).value.journal := by
  have hconfig := r.config_render markup stylesheet device
  have hbackend' := r.backend_render markup stylesheet device
  generalize hnext : (r.render device markup stylesheet).value.renderer = r' at hconfig hbackend' ⊢
  have hverdict := r.verdict_eq markup stylesheet r' hconfig hbackend'
  by_cases h : r.verdict markup stylesheet = .rendered
  · obtain ⟨backend, sheet, hbackend, hmarkup, hsheet⟩ :=
      r.exists_sheet_of_rendered markup stylesheet h
    obtain ⟨notes, hnotes, hrender⟩ :=
      r.render_of_drawn markup stylesheet backend sheet hbackend hmarkup hsheet device
    rw [← hconfig] at hsheet
    obtain ⟨notes', hnotes', hrender'⟩ := r'.render_of_drawn markup stylesheet backend sheet
      (hbackend'.trans hbackend) hmarkup hsheet device'
    rw [hconfig] at hrender'
    obtain ⟨outcome, t, events, hdrawn, hjournal, hagain⟩ := Draw.retraces_document
      ⟨backend, r.config, sheet⟩ (Markup.parseOrShow r.config.validator markup).value
        (opened (r.scene device) notes)
    obtain ⟨_, hfirst, hstore⟩ := hrender outcome t hdrawn
    have hevents : Unchanging events := by
      intro ev hev
      have hdrew : ev ∈ t.journal := by
        rw [hjournal]
        exact List.mem_append_right _ hev
      apply hsame
      rw [hfirst]
      exact (journal_ended outcome t).subset hdrew
    obtain ⟨_, hagain⟩ := hagain trivial hevents
    -- The second frame begins with the store that the first one leaves.
    have hmirrors : Mirrors backend t.store (opened (r.scene device) notes)
        (opened (r'.scene device') notes') := by
      refine ⟨rfl, halike backend hbackend, ?_⟩
      rw [hnext] at hstore
      show r'.store.advance.value.Recalls t.store
      rw [hstore]
      exact recalls_ended outcome t
    obtain ⟨t', more, hdrawn', hjournal', hissued, _⟩ := hagain t.store _ (.refl _) hmirrors
    obtain ⟨_, hsecond, _⟩ := hrender' outcome t' hdrawn'
    rw [hfirst, hsecond, issued_ended, issued_ended, hjournal, hjournal', issued_append,
      issued_append, issued_opened _ _ hnotes, issued_opened _ _ hnotes', hissued]
    rfl
  · have hfirst := (r.accounts_undrawn device markup stylesheet h).undrawn h
    rw [← hverdict] at h
    have hsecond := (r'.accounts_undrawn device' markup stylesheet h).undrawn h
    rw [hfirst.1, hsecond.1]

/-! ### All further frames -/

/-- The same sources rendered in one frame after another, each with a device of its own. -/
def replay (devices : Nat → σ) : Nat → Rendering σ
  | 0 => (r.render (devices 0) markup stylesheet).value
  | n + 1 => ((replay devices n).renderer.render (devices (n + 1)) markup stylesheet).value

theorem exists_render_replay (devices : Nat → σ) (n : Nat) :
    ∃ r' : Renderer σ, r'.backend = r.backend ∧
      r.replay markup stylesheet devices n = (r'.render (devices n) markup stylesheet).value := by
  induction n with
  | zero => exact ⟨r, rfl, rfl⟩
  | succ n ih =>
    obtain ⟨r', hbackend, hreplay⟩ := ih
    refine ⟨(r.replay markup stylesheet devices n).renderer, ?_, rfl⟩
    rw [hreplay, backend_render, hbackend]

/-- If the replies of the backend depend only on what it has been asked in the frame, and no change
is reported in a frame, every further frame of the same sources issues the same calls with the same
arguments, and gets the same replies. -/
theorem issued_replay (answers : List Call → (c : Call) → Except Fault c.Answer)
    (devices : Nat → σ) (hanswers : ∀ b ∈ r.backend, ∀ n, b.AnswersBy answers (devices n))
    (hsame : ∀ ev ∈ (r.replay markup stylesheet devices 0).journal, ev.reported? = none) (n : Nat) :
    issued (r.replay markup stylesheet devices n).journal =
      issued (r.replay markup stylesheet devices 0).journal := by
  induction n with
  | zero => rfl
  | succ n ih =>
    obtain ⟨r', hbackend, hreplay⟩ := r.exists_render_replay markup stylesheet devices n
    have halike : ∀ b ∈ r'.backend, b.Alike (devices n) (devices (n + 1)) := by
      rw [hbackend]
      exact fun b hb => (hanswers b hb n).alike (hanswers b hb (n + 1))
    have hquiet := unchanging_of_issued_eq ih hsame
    rw [hreplay] at hquiet
    have hagain := r'.issued_render_again markup stylesheet _ _ halike hquiet
    rw [← hreplay] at hagain
    exact hagain.trans ih

/-! ### A backend that refuses by the count of calls -/

/-- A backend that refuses every fifth call of a frame, and reports nothing. -/
def hesitantBackend : Backend Nat where
  answer call count :=
    if count % 5 = 4 then .error (.refused ⟨call.name, "not now"⟩) (count + 1)
    else .ok (idleAnswer call) (count + 1)

theorem hearing_hesitantBackend (calls : List Call) (count : Nat) :
    hesitantBackend.hearing count calls = count + calls.length := by
  induction calls generalizing count with
  | nil => rfl
  | cons c calls ih =>
    have hafter : hesitantBackend.after c count = count + 1 := by
      by_cases h : count % 5 = 4
      · simp [Backend.after, hesitantBackend, h]
      · simp [Backend.after, hesitantBackend, h]
    have hrest : hesitantBackend.hearing count (c :: calls) =
        hesitantBackend.hearing (count + 1) calls := by rw [← hafter]; rfl
    rw [hrest, ih, List.length_cons]
    omega

def hesitantAnswers (calls : List Call) (c : Call) : Except Fault c.Answer :=
  if calls.length % 5 = 4 then .error (.refused ⟨c.name, "not now"⟩) else .ok (idleAnswer c)

theorem answersBy_hesitantBackend : hesitantBackend.AnswersBy hesitantAnswers 0 := by
  intro calls c
  rw [hearing_hesitantBackend, Nat.zero_add]
  by_cases h : calls.length % 5 = 4
  · simp [Backend.reply, hesitantBackend, hesitantAnswers, h]
  · simp [Backend.reply, hesitantBackend, hesitantAnswers, h]

/-- A renderer that drops what a frame does not use, with a text under the key of a slider. -/
def leftoverRenderer : Renderer Nat :=
  { (ofConfig { graceFrames := 0 } : Renderer Nat) with
    backend := some hesitantBackend
    store := (Store.new 0).write "w" (.text "left") }

/-- A slider and a text input with one key, and a checkbox. -/
def sharedKey : String :=
  "<App><Window><SliderFloat id='w' value='0.25'/><InputText id='w'/><Checkbox checked='true'/>" ++
    "<Text>end</Text></Window></App>"

theorem issued_replay_sharedKey :
    (∀ b ∈ leftoverRenderer.backend, ∀ _ : Nat, b.AnswersBy hesitantAnswers 0) ∧
      (∀ ev ∈ (leftoverRenderer.replay sharedKey "" (fun _ => 0) 0).journal,
        ev.reported? = none) ∧
        (issued (leftoverRenderer.replay sharedKey "" (fun _ => 0) 0).journal).length = 6 ∧
          issued (leftoverRenderer.replay sharedKey "" (fun _ => 0) 2).journal =
            issued (leftoverRenderer.replay sharedKey "" (fun _ => 0) 0).journal := by
  have hanswers : ∀ b ∈ leftoverRenderer.backend, ∀ _ : Nat, b.AnswersBy hesitantAnswers 0 := by
    intro b hb _
    obtain rfl : hesitantBackend = b := Option.some.inj hb
    exact answersBy_hesitantBackend
  have hsame : ∀ ev ∈ (leftoverRenderer.replay sharedKey "" (fun _ => 0) 0).journal,
      ev.reported? = none := by decide +kernel
  have hcalls : (issued (leftoverRenderer.replay sharedKey "" (fun _ => 0) 0).journal).length =
      6 := by decide +kernel
  exact ⟨hanswers, hsame, hcalls, issued_replay leftoverRenderer sharedKey "" _ _ hanswers hsame 2⟩

end Renderer
end FrameUI.Frame
