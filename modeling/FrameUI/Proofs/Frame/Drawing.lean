import FrameUI.Frame.Scene

/-!
# Parts of a drawing and how they end

A part of a drawing ends in a result, in a refusal, or broken off by the backend, and leaves a
scene. `Comes` is the judgement on what a part comes to. `Ends` is the judgement behind most
results about drawing: a part comes to an outcome and a scene with a property, unless the last
call that it has noted breaks it off. There is one rule of each for every way in which parts are
put together.
-/

namespace FrameUI.Frame

variable {σ α β : Type}

/-! ### Broken off frames -/

/-- Whether an event is a call by which the backend breaks off the frame. -/
def Event.isBreak : Event → Bool
  | called _ (.error .brokenOff) => true
  | _ => false

/-- No call of a journal breaks off the frame. -/
def Unbroken (events : List Event) : Prop := ∀ ev ∈ events, ev.isBreak = false

instance : DecidablePred Unbroken := fun events =>
  inferInstanceAs (Decidable (∀ ev ∈ events, ev.isBreak = false))

/-- The last event of a journal is a call that breaks off the frame. -/
def BrokenAtEnd (journal : List Event) : Prop :=
  ∃ earlier c, journal = earlier ++ [.called c (.error .brokenOff)]

theorem unbroken_append (events more : List Event) :
    Unbroken (events ++ more) ↔ Unbroken events ∧ Unbroken more := List.forall_mem_append

theorem BrokenAtEnd.not_unbroken {journal : List Event} (h : BrokenAtEnd journal) :
    ¬ Unbroken journal := by
  obtain ⟨earlier, c, rfl⟩ := h
  intro hunbroken
  cases hunbroken _ (List.mem_append_right _ (List.mem_singleton_self _))

/-! ### Asking the backend -/

namespace Backend

variable (b : Backend σ)

def reply (c : Call) (device : σ) : Except Fault c.Answer :=
  match b.answer c device with
  | .ok a _ => .ok a
  | .error f _ => .error f

def after (c : Call) (device : σ) : σ :=
  match b.answer c device with
  | .ok _ d => d
  | .error _ d => d

end Backend

namespace Draw

/-! ### Outcomes -/

/-- How a part ends: in a result or a fault, with the scene that it leaves. -/
def ending (outcome : Except Fault α) (s : Scene σ) : EStateM.Result Fault (Scene σ) α :=
  match outcome with
  | .ok a => .ok a s
  | .error f => .error f s

theorem ending_inj {outcome result : Except Fault α} {s t : Scene σ}
    (h : ending outcome s = ending result t) : outcome = result ∧ s = t := by
  cases outcome <;> cases result <;> cases h <;> exact ⟨rfl, rfl⟩

theorem exists_ending (body : Draw σ α) (s : Scene σ) :
    ∃ outcome t, body s = ending outcome t := by
  cases h : body s with
  | ok a t => exact ⟨.ok a, t, rfl⟩
  | error f t => exact ⟨.error f, t, rfl⟩

/-- The reply that a journal notes for the outcome of a call. -/
abbrev replyOf (outcome : Except CallError α) : Except Fault α := outcome.mapError .refused

theorem brokenOff_or_replyOf (outcome : Except Fault α) :
    outcome = .error .brokenOff ∨ ∃ reply, outcome = replyOf reply := by
  rcases outcome with (e | _) | a
  · exact .inr ⟨.error e, rfl⟩
  · exact .inl rfl
  · exact .inr ⟨.ok a, rfl⟩

/-- What an attempt makes of an outcome. -/
def caught : Except Fault α → Except Fault (Except CallError α)
  | .ok a => .ok (.ok a)
  | .error (.refused e) => .ok (.error e)
  | .error .brokenOff => .error .brokenOff

theorem caught_replyOf (reply : Except CallError α) : caught (replyOf reply) = .ok reply := by
  cases reply <;> rfl

theorem attempt_of_ending (body : Draw σ α) (s t : Scene σ) (outcome : Except Fault α)
    (h : body s = ending outcome t) : attempt body s = ending (caught outcome) t := by
  rcases outcome with (e | _) | a
  · exact attempt_of_refused body s t e h
  · exact attempt_of_brokenOff body s t h
  · exact attempt_of_ok body s t a h

theorem bind_of_ok (body : Draw σ α) (next : α → Draw σ β) (s t : Scene σ) (a : α)
    (h : body s = .ok a t) : (body >>= next) s = next a t := by
  change EStateM.bind body next s = next a t
  rw [EStateM.bind, h]

theorem bind_of_error (body : Draw σ α) (next : α → Draw σ β) (s t : Scene σ) (f : Fault)
    (h : body s = .error f t) : (body >>= next) s = .error f t := by
  change EStateM.bind body next s = .error f t
  rw [EStateM.bind, h]

theorem bind_of_ending (body : Draw σ α) (next : α → Draw σ β) (s t u : Scene σ) (a : α)
    (outcome : Except Fault β) (h : body s = ending (.ok a) t)
    (hnext : next a t = ending outcome u) : (body >>= next) s = ending outcome u := by
  rw [bind_of_ok body next s t a h, hnext]

/-- The scene outside an element whose inside has come to an outcome. -/
def outside (outcome : Except Fault α) (t : Scene σ) : Scene σ :=
  match outcome with
  | .error .brokenOff => t
  | _ => { t with ancestors := t.ancestors.dropLast }

theorem journal_outside (outcome : Except Fault α) (t : Scene σ) :
    (outside outcome t).journal = t.journal := by
  rcases outcome with (e | _) | a <;> rfl

theorem outside_replyOf (reply : Except CallError α) (t : Scene σ) :
    outside (replyOf reply) t = { t with ancestors := t.ancestors.dropLast } := by
  cases reply <;> rfl

theorem within_of_ending (e : Markup.Element) (body : Draw σ α) (s t : Scene σ)
    (outcome : Except Fault α)
    (h : body { s with ancestors := s.ancestors ++ [e] } = ending outcome t) :
    within e body s = ending outcome (outside outcome t) := by
  rcases outcome with (err | _) | a
  · exact within_of_refused e body s t err h
  · exact within_of_brokenOff e body s t h
  · exact within_of_ok e body s t a h

theorem attempt_bind_rethrow (body : Draw σ α) : (attempt body >>= rethrow) = body := by
  funext s
  cases h : body s with
  | ok a t => exact bind_of_ok _ _ s t _ (attempt_of_ok body s t a h)
  | error f t =>
    cases f with
    | refused e => exact bind_of_ok _ _ s t _ (attempt_of_refused body s t e h)
    | brokenOff => exact bind_of_error _ _ s t _ (attempt_of_brokenOff body s t h)

/-- The scene after a call has been issued. -/
def asked (backend : Backend σ) (c : Call) (s : Scene σ) : Scene σ :=
  { s with
    device := backend.after c s.device
    journal := s.journal ++
      [.traced (.line c.traceLine), .called c (backend.reply c s.device)] }

theorem issue_eq (backend : Backend σ) (c : Call) (s : Scene σ) :
    issue backend c s = ending (backend.reply c s.device) (asked backend c s) := by
  have htraced : issue backend c s =
      call backend c { s with journal := s.journal ++ [.traced (.line c.traceLine)] } := rfl
  have hjournal : ∀ ev, s.journal ++ [.traced (.line c.traceLine)] ++ [ev] =
      s.journal ++ [.traced (.line c.traceLine), ev] := fun ev => List.append_assoc _ _ _
  cases h : backend.answer c s.device with
  | ok a d =>
    have hreply : backend.reply c s.device = .ok a := by rw [Backend.reply, h]
    have hafter : backend.after c s.device = d := by rw [Backend.after, h]
    rw [asked, hreply, hafter, ← hjournal]
    exact htraced.trans (call_of_ok backend c _ a d h)
  | error f d =>
    have hreply : backend.reply c s.device = .error f := by rw [Backend.reply, h]
    have hafter : backend.after c s.device = d := by rw [Backend.after, h]
    rw [asked, hreply, hafter, ← hjournal]
    exact htraced.trans (call_of_error backend c _ f d h)

theorem brokenAtEnd_asked (backend : Backend σ) (c : Call) (s : Scene σ)
    (h : backend.reply c s.device = .error .brokenOff) :
    BrokenAtEnd (asked backend c s).journal := by
  refine ⟨s.journal ++ [.traced (.line c.traceLine)], c, ?_⟩
  rw [List.append_assoc, ← h]
  rfl

section Asking

variable (backend : Backend σ) (c : Call) (next : Except CallError c.Answer → Draw σ α)
  (s : Scene σ)

theorem attempt_issue_bind_of_brokenOff (h : backend.reply c s.device = .error .brokenOff) :
    (attempt (issue backend c) >>= next) s = ending (.error .brokenOff) (asked backend c s) := by
  have hissue := attempt_of_ending _ s _ _ (issue_eq backend c s)
  rw [h] at hissue
  exact bind_of_error _ next s _ _ hissue

theorem attempt_issue_bind_of_reply (reply : Except CallError c.Answer)
    (h : backend.reply c s.device = replyOf reply) :
    (attempt (issue backend c) >>= next) s = next reply (asked backend c s) := by
  have hissue := attempt_of_ending _ s _ _ (issue_eq backend c s)
  rw [h] at hissue
  cases reply with
  | ok a => exact bind_of_ok _ next s _ _ hissue
  | error e => exact bind_of_ok _ next s _ _ hissue

end Asking

/-! ### What parts come to -/

/-- From a scene a part comes to an outcome and a scene with a property, broken off or not. -/
def Comes (body : Draw σ α) (s : Scene σ) (Q : Except Fault α → Scene σ → Prop) : Prop :=
  ∃ outcome t, body s = ending outcome t ∧ Q outcome t

section Comes

variable {body : Draw σ α} {s : Scene σ} {R : Except Fault α → Scene σ → Prop}
  {Q : Except Fault β → Scene σ → Prop}

theorem Comes.mono {Q : Except Fault α → Scene σ → Prop} (h : Comes body s R)
    (hRQ : ∀ outcome t, R outcome t → Q outcome t) : Comes body s Q := by
  obtain ⟨outcome, t, hrun, hR⟩ := h
  exact ⟨outcome, t, hrun, hRQ outcome t hR⟩

theorem Comes.of_run (h : Comes body s R) {outcome : Except Fault α} {t : Scene σ}
    (hrun : body s = ending outcome t) : R outcome t := by
  obtain ⟨outcome', t', hrun', hR⟩ := h
  obtain ⟨rfl, rfl⟩ := ending_inj (hrun.symm.trans hrun')
  exact hR

theorem Comes.bind {next : α → Draw σ β} (h : Comes body s R)
    (hok : ∀ a t, R (.ok a) t → Comes (next a) t Q)
    (herror : ∀ f t, R (.error f) t → Q (.error f) t) : Comes (body >>= next) s Q := by
  obtain ⟨outcome, t, hrun, hR⟩ := h
  cases outcome with
  | ok a =>
    obtain ⟨result, u, hlast, hQ⟩ := hok a t hR
    exact ⟨result, u, bind_of_ending body next s t u a result hrun hlast, hQ⟩
  | error f => exact ⟨.error f, t, bind_of_error body next s t f hrun, herror f t hR⟩

/-- What follows a part that is known to give a result. -/
theorem Comes.after {next : α → Draw σ β} {t : Scene σ} {a : α} (hrun : body s = .ok a t)
    (h : Comes (next a) t Q) : Comes (body >>= next) s Q := by
  obtain ⟨outcome, u, hlast, hQ⟩ := h
  exact ⟨outcome, u, bind_of_ending body next s t u a outcome hrun hlast, hQ⟩

theorem Comes.attempting {next : Except CallError α → Draw σ β} (h : Comes body s R)
    (hnext : ∀ reply t, R (replyOf reply) t → Comes (next reply) t Q)
    (hbroken : ∀ t, R (.error .brokenOff) t → Q (.error .brokenOff) t) :
    Comes (Draw.attempt body >>= next) s Q := by
  obtain ⟨outcome, t, hrun, hR⟩ := h
  have hattempt := attempt_of_ending body s t outcome hrun
  rcases brokenOff_or_replyOf outcome with rfl | ⟨reply, rfl⟩
  · exact ⟨.error .brokenOff, t, bind_of_error _ next s t _ hattempt, hbroken t hR⟩
  · rw [caught_replyOf] at hattempt
    exact Comes.after hattempt (hnext reply t hR)

theorem Comes.within {e : Markup.Element} {Q : Except Fault α → Scene σ → Prop}
    (h : Comes body { s with ancestors := s.ancestors ++ [e] } fun outcome t =>
      Q outcome (outside outcome t)) : Comes (Draw.within e body) s Q := by
  obtain ⟨outcome, t, hrun, hQ⟩ := h
  exact ⟨outcome, _, within_of_ending e body s t outcome hrun, hQ⟩

theorem comes_rethrow (reply : Except CallError α) (s : Scene σ)
    {Q : Except Fault α → Scene σ → Prop} (hQ : Q (replyOf reply) s) :
    Comes (rethrow reply) s Q := by
  cases reply with
  | ok a => exact ⟨.ok a, s, rfl, hQ⟩
  | error e => exact ⟨.error (.refused e), s, rfl, hQ⟩

theorem comes_issue (backend : Backend σ) (c : Call) {Q : Except Fault c.Answer → Scene σ → Prop}
    (hQ : Q (backend.reply c s.device) (asked backend c s)) : Comes (issue backend c) s Q :=
  ⟨_, _, issue_eq backend c s, hQ⟩

theorem Comes.asking (backend : Backend σ) (c : Call)
    {next : Except CallError c.Answer → Draw σ β}
    (hnext : ∀ reply, backend.reply c s.device = replyOf reply →
      Comes (next reply) (asked backend c s) Q)
    (hbroken : backend.reply c s.device = .error .brokenOff →
      Q (.error .brokenOff) (asked backend c s)) :
    Comes (Draw.attempt (issue backend c) >>= next) s Q := by
  refine Comes.attempting (R := fun outcome t => backend.reply c s.device = outcome ∧
    t = asked backend c s) (comes_issue backend c ⟨rfl, rfl⟩) ?_ ?_
  · rintro reply t ⟨hreply, rfl⟩
    exact hnext reply hreply
  · rintro t ⟨hreply, rfl⟩
    exact hbroken hreply

end Comes

theorem contain_ne_refused (source report : String) (e : Markup.Element) (body : Draw σ Unit)
    (s t : Scene σ) (err : CallError) :
    contain source report e body s ≠ .error (.refused err) t := by
  unfold contain
  intro h
  cases hbody : body s with
  | ok a u =>
    rw [bind_of_ok _ _ s u _ (attempt_of_ok body s u a hbody)] at h
    cases h
  | error f u =>
    cases f with
    | refused e =>
      rw [bind_of_ok _ _ s u _ (attempt_of_refused body s u e hbody)] at h
      cases h
    | brokenOff =>
      rw [bind_of_error _ _ s u _ (attempt_of_brokenOff body s u hbody)] at h
      cases h

/-! ### How parts end -/

/-- What holds of an outcome and a scene with a property, and of a part that is broken off by the
last call of its journal. -/
def UnlessBroken (Q : Except CallError α → Scene σ → Prop) : Except Fault α → Scene σ → Prop
  | .ok a, t => Q (.ok a) t
  | .error (.refused e), t => Q (.error e) t
  | .error .brokenOff, t => BrokenAtEnd t.journal

/-- A part of the drawing ends in the scene `s`, in an outcome and a scene with a property, unless
its last call breaks it off. -/
def Ends (body : Draw σ α) (s : Scene σ) (Q : Except CallError α → Scene σ → Prop) : Prop :=
  Comes body s (UnlessBroken Q)

section Ends

variable {P Q : Except CallError α → Scene σ → Prop}

theorem unlessBroken_replyOf (Q : Except CallError α → Scene σ → Prop)
    (outcome : Except CallError α) (t : Scene σ) :
    UnlessBroken Q (replyOf outcome) t ↔ Q outcome t := by
  cases outcome <;> rfl

theorem UnlessBroken.mono {outcome : Except Fault α} {t : Scene σ} (h : UnlessBroken P outcome t)
    (hPQ : ∀ outcome t, P outcome t → Q outcome t) : UnlessBroken Q outcome t := by
  rcases outcome with (e | _) | a
  · exact hPQ _ t h
  · exact h
  · exact hPQ _ t h

theorem Ends.of_ok (body : Draw σ α) (s t : Scene σ) (a : α)
    (Q : Except CallError α → Scene σ → Prop) (h : body s = .ok a t) (hQ : Q (.ok a) t) :
    Ends body s Q :=
  ⟨.ok a, t, h, hQ⟩

theorem Ends.of_refused (body : Draw σ α) (s t : Scene σ) (e : CallError)
    (Q : Except CallError α → Scene σ → Prop) (h : body s = .error (.refused e) t)
    (hQ : Q (.error e) t) : Ends body s Q :=
  ⟨.error (.refused e), t, h, hQ⟩

theorem Ends.mono (body : Draw σ α) (s : Scene σ) (P Q : Except CallError α → Scene σ → Prop)
    (h : Ends body s P) (hPQ : ∀ outcome t, P outcome t → Q outcome t) : Ends body s Q :=
  Comes.mono h fun _ _ hP => hP.mono hPQ

/-- A part that ends in a result goes on; one that ends in a refusal ends the whole. -/
theorem Ends.bind (body : Draw σ α) (next : α → Draw σ β) (s : Scene σ)
    (P : Except CallError α → Scene σ → Prop) (Q : Except CallError β → Scene σ → Prop)
    (h : Ends body s P) (hok : ∀ a t, P (.ok a) t → Ends (next a) t Q)
    (herror : ∀ e t, P (.error e) t → Q (.error e) t) : Ends (body >>= next) s Q := by
  refine Comes.bind h (fun a t hP => hok a t hP) fun f t hP => ?_
  cases f with
  | refused e => exact herror e t hP
  | brokenOff => exact hP

/-- What follows a part that is known to give a result. -/
theorem Ends.after (body : Draw σ α) (next : α → Draw σ β) (s t : Scene σ) (a : α)
    (Q : Except CallError β → Scene σ → Prop) (hrun : body s = .ok a t) (h : Ends (next a) t Q) :
    Ends (body >>= next) s Q :=
  Comes.after hrun h

theorem ends_pure (a : α) (s : Scene σ) (Q : Except CallError α → Scene σ → Prop)
    (hQ : Q (.ok a) s) : Ends (pure a) s Q :=
  Ends.of_ok _ s s a Q rfl hQ

theorem ends_rethrow (outcome : Except CallError α) (s : Scene σ)
    (Q : Except CallError α → Scene σ → Prop) (hQ : Q outcome s) :
    Ends (rethrow outcome) s Q :=
  comes_rethrow outcome s ((unlessBroken_replyOf Q outcome s).2 hQ)

theorem Ends.attempt (body : Draw σ α) (s : Scene σ)
    (Q : Except CallError (Except CallError α) → Scene σ → Prop)
    (h : Ends body s fun outcome t => Q (.ok outcome) t) : Ends (Draw.attempt body) s Q := by
  rw [Ends, ← bind_pure (Draw.attempt body)]
  exact Comes.attempting h
    (fun reply t hQ => ends_pure reply t Q ((unlessBroken_replyOf _ reply t).1 hQ))
    fun _ hbroken => hbroken

theorem Ends.within (e : Markup.Element) (body : Draw σ α) (s : Scene σ)
    (Q : Except CallError α → Scene σ → Prop)
    (h : Ends body { s with ancestors := s.ancestors ++ [e] }
      fun outcome t => Q outcome { t with ancestors := t.ancestors.dropLast }) :
    Ends (Draw.within e body) s Q := by
  refine Comes.within (Comes.mono h fun outcome t hQ => ?_)
  rcases outcome with (err | _) | a
  · exact hQ
  · exact hQ
  · exact hQ

theorem ends_issue (backend : Backend σ) (c : Call) (s : Scene σ)
    (Q : Except CallError c.Answer → Scene σ → Prop)
    (hQ : ∀ outcome, backend.reply c s.device = replyOf outcome → Q outcome (asked backend c s)) :
    Ends (issue backend c) s Q := by
  refine comes_issue backend c ?_
  rcases brokenOff_or_replyOf (backend.reply c s.device) with hbroken | ⟨reply, hreply⟩
  · rw [hbroken]
    exact brokenAtEnd_asked backend c s hbroken
  · rw [hreply]
    exact (unlessBroken_replyOf Q reply _).2 (hQ reply hreply)

/-- In an unbroken journal a part has ended. -/
theorem Ends.exists_of_unbroken {body : Draw σ α} {s : Scene σ} (h : Ends body s Q)
    {outcome : Except Fault α} {t : Scene σ} (hrun : body s = ending outcome t)
    (hunbroken : Unbroken t.journal) : ∃ reply, outcome = replyOf reply ∧ Q reply t := by
  have hQ := Comes.of_run h hrun
  rcases brokenOff_or_replyOf outcome with rfl | ⟨reply, rfl⟩
  · exact absurd hunbroken hQ.not_unbroken
  · exact ⟨reply, rfl, (unlessBroken_replyOf Q reply t).1 hQ⟩

end Ends

end Draw
end FrameUI.Frame
