import FrameUI.Proofs.Frame.Series

/-!
# Frames that break off

A frame on a recorder comes to its verdict, except where the script slides a slider whose bounds
are out of order: the recorder breaks the frame off there. Main statement: this is the only way in
which such a frame fails to come to a verdict (`Renderer.render_recorder`).
-/

namespace FrameUI.Frame

open FrameUI.Markup (Element)

variable {α β : Type}

/-! ### The recorder -/

namespace Recorder

/-- A later recorder has no slides that the script did not have before. -/
def Spends (d d' : Recorder) : Prop :=
  ∀ label, (d'.slides.find? label).isSome = true → (d.slides.find? label).isSome = true

theorem Spends.refl (d : Recorder) : d.Spends d := fun _ h => h

theorem Spends.trans {d d' d'' : Recorder} (h : d.Spends d') (h' : d'.Spends d'') :
    d.Spends d'' := fun label hlabel => h label (h' label hlabel)

/-- From a recorder, an answer that breaks nothing off and only spends the script. -/
def Mild (x : EStateM Fault Recorder α) (d : Recorder) : Prop :=
  ∃ (outcome : Except CallError α) (d' : Recorder), d.Spends d' ∧
    x d = match outcome with
      | .ok a => .ok a d'
      | .error e => .error (.refused e) d'

theorem mild_of_ok {x : EStateM Fault Recorder α} {d d' : Recorder} {a : α} (h : x d = .ok a d')
    (hspends : d.Spends d') : Mild x d := ⟨.ok a, d', hspends, h⟩

theorem mild_of_refused {x : EStateM Fault Recorder α} {d d' : Recorder} {e : CallError}
    (h : x d = .error (.refused e) d') (hspends : d.Spends d') : Mild x d :=
  ⟨.error e, d', hspends, h⟩

def noted (d : Recorder) (c : Call) : Recorder := { d with calls := d.calls ++ [c.recorded] }

theorem note_eq (c : Call) (d : Recorder) :
    note c d = if d.refusedCalls.contains c.name then
        .error (.refused ⟨c.name, "scripted failure"⟩) (d.noted c)
      else .ok () (d.noted c) := by
  show (if (d.noted c).refusedCalls.contains c.name then
      throw (.refused ⟨c.name, "scripted failure"⟩) else pure () :
        EStateM Fault Recorder Unit) (d.noted c) = _
  split
  · rename_i h
    exact (if_pos h).symm
  · rename_i h
    exact (if_neg h).symm

theorem mild_note (c : Call) (d : Recorder) : Mild (note c) d := by
  have hnote := note_eq c d
  split at hnote
  · exact mild_of_refused hnote fun _ h => h
  · exact mild_of_ok hnote fun _ h => h

theorem note_bind_cases (c : Call) (next : Unit → EStateM Fault Recorder α) (d : Recorder) :
    Mild (note c >>= next) d ∨ (note c >>= next) d = next () (d.noted c) := by
  have hnote := note_eq c d
  split at hnote
  · have hrun : (note c >>= next) d =
        .error (.refused ⟨c.name, "scripted failure"⟩) (d.noted c) := by
      show EStateM.bind (note c) next d = _
      rw [EStateM.bind, hnote]
    exact .inl (mild_of_refused hrun fun _ h => h)
  · refine .inr ?_
    show EStateM.bind (note c) next d = _
    rw [EStateM.bind, hnote]

theorem mild_note_bind {c : Call} {next : Unit → EStateM Fault Recorder α} {d : Recorder}
    (h : Mild (next ()) (d.noted c)) : Mild (note c >>= next) d := by
  rcases note_bind_cases c next d with hmild | heq
  · exact hmild
  · obtain ⟨outcome, d', hspends, hrun⟩ := h
    exact ⟨outcome, d', hspends, heq.trans hrun⟩

theorem get_set_bind (f : Recorder → Recorder) (next : Recorder → EStateM Fault Recorder α)
    (d : Recorder) :
    (do
      let r ← get
      set (f r)
      next r : EStateM Fault Recorder α) d = next d (f d) := rfl

theorem mild_get_set (f : Recorder → Recorder) (next : Recorder → EStateM Fault Recorder α)
    (d : Recorder) (h : Mild (next d) (f d)) (hspends : d.Spends (f d)) :
    Mild (do
      let r ← get
      set (f r)
      next r) d := by
  obtain ⟨outcome, d', hmore, hrun⟩ := h
  exact ⟨outcome, d', hspends.trans hmore, hrun⟩

theorem mild_noteText (c : Call) (content : String) (d : Recorder) :
    Mild (noteText c content) d := by
  apply mild_note_bind
  by_cases h : (d.noted c).refusedTexts.contains content = true
  · exact mild_of_refused (congrFun (if_pos h) (d.noted c)) fun _ h => h
  · exact mild_of_ok (congrFun (if_neg h) (d.noted c)) fun _ h => h

theorem spends_erase (d : Recorder) (label : String) :
    d.Spends { d with slides := d.slides.erase label } := by
  intro key h
  rw [Dict.find?_erase] at h
  split at h
  · cases h
  · exact h

/-- A slider breaks the frame off if it is slid and its bounds are out of order. -/
theorem answer_slider (label : String) (value low high : Single) (d : Recorder) :
    Mild (answer (.slider label value low high)) d ∨
      (d.slides.find? label).isSome = true ∧ low.le high = false ∧
        ∃ d', answer (.slider label value low high) d = .error .brokenOff d' ∧ d.Spends d' := by
  have hspends : d.Spends
      { d.noted (.slider label value low high) with slides := d.slides.erase label } :=
    d.spends_erase label
  rcases note_bind_cases (.slider label value low high) _ d with hmild | hrun
  · exact .inl hmild
  -- The slide is taken from the script before the bounds are looked at.
  have hslides : (d.noted (.slider label value low high)).slides = d.slides := rfl
  rw [get_set_bind, hslides] at hrun
  have hanswer : answer (.slider label value low high) d = _ := hrun
  cases hslid : d.slides.find? label with
  | none =>
    rw [hslid] at hanswer
    exact .inl (mild_of_ok hanswer hspends)
  | some slid =>
    rw [hslid] at hanswer
    cases hbounds : low.le high with
    | true =>
      rw [hbounds] at hanswer
      exact .inl (mild_of_ok hanswer hspends)
    | false =>
      rw [hbounds] at hanswer
      exact .inr ⟨rfl, rfl, _, hanswer, hspends⟩

/-- No other call breaks a frame off. -/
theorem mild_answer (c : Call) (d : Recorder)
    (h : ∀ label value low high, c ≠ .slider label value low high) : Mild (answer c) d := by
  cases c with
  | slider label value low high => exact absurd rfl (h label value low high)
  | beginWindow name flags => exact mild_note_bind (mild_of_ok rfl fun _ h => h)
  | button label => exact mild_note_bind (mild_of_ok rfl fun _ h => h)
  | inputText label hint buffer capacity =>
    apply mild_note_bind
    refine mild_get_set _ _ _ ?_ fun _ h => h
    cases (d.noted (.inputText label hint buffer capacity)).typed.find? label with
    | none => exact mild_of_ok rfl fun _ h => h
    | some text => exact mild_of_ok rfl fun _ h => h
  | checkbox label checked =>
    apply mild_note_bind
    by_cases htoggled : (d.noted (.checkbox label checked)).toggles.contains label = true
    · exact mild_of_ok (congrFun (if_pos htoggled) _) fun _ h => h
    · exact mild_of_ok (congrFun (if_neg htoggled) _) fun _ h => h
  | pushColor slot color => exact mild_note_bind (mild_of_ok rfl fun _ h => h)
  | popColors count => exact mild_note_bind (mild_of_ok rfl fun _ h => h)
  | text content => exact mild_noteText _ content d
  | textColored color content => exact mild_noteText _ content d
  | _ => exact mild_note _ d

theorem Mild.reply {c : Call} {d : Recorder} (h : Mild (answer c) d) :
    d.Spends (backend.after c d) ∧ backend.reply c d ≠ .error .brokenOff := by
  obtain ⟨outcome, d', hspends, hrun⟩ := h
  have hanswer : backend.answer c d = _ := hrun
  rw [Backend.after, Backend.reply, hanswer]
  refine ⟨?_, fun hbroken => ?_⟩
  · cases outcome with
    | ok a => exact hspends
    | error e => exact hspends
  · cases outcome with
    | ok a => cases hbroken
    | error e => cases hbroken

/-- What a recorder must have been asked if it broke a frame off. -/
def Snaps (d : Recorder) (c : Call) : Prop :=
  ∃ label value low high, c = .slider label value low high ∧
    (d.slides.find? label).isSome = true ∧ low.le high = false

theorem reply_cases (c : Call) (d : Recorder) :
    d.Spends (backend.after c d) ∧
      (backend.reply c d = .error .brokenOff → d.Snaps c) := by
  by_cases hslider : ∃ label value low high, c = .slider label value low high
  · obtain ⟨label, value, low, high, rfl⟩ := hslider
    rcases d.answer_slider label value low high with hmild | ⟨hslid, hbounds, d', hrun, hspends⟩
    · exact ⟨hmild.reply.1, fun hbroken => absurd hbroken hmild.reply.2⟩
    · have hanswer : backend.answer (.slider label value low high) d = _ := hrun
      rw [Backend.after, hanswer]
      exact ⟨hspends, fun _ => ⟨label, value, low, high, rfl, hslid, hbounds⟩⟩
  · have hmild := d.mild_answer c fun label value low high heq =>
      hslider ⟨label, value, low, high, heq⟩
    exact ⟨hmild.reply.1, fun hbroken => absurd hbroken hmild.reply.2⟩

end Recorder

/-! ### Drawing -/

theorem unbroken_of_incidental (events : List Event) (h : Incidental events) :
    Unbroken events := by
  intro ev hev
  have hincidental := h ev hev
  cases ev with
  | called c reply => cases hincidental
  | _ => rfl

/-- A journal that ends where a recorder broke the frame off. -/
def BrokenOffBy (d : Recorder) (journal : List Event) : Prop :=
  ∃ earlier c, journal = earlier ++ [.called c (.error .brokenOff)] ∧ Unbroken earlier ∧ d.Snaps c

theorem BrokenOffBy.of_spends {d d' : Recorder} {journal : List Event} (h : d.Spends d')
    (hbroken : BrokenOffBy d' journal) : BrokenOffBy d journal := by
  obtain ⟨earlier, _, hjournal, hunbroken, label, value, low, high, rfl, hslid, hbounds⟩ := hbroken
  exact ⟨earlier, _, hjournal, hunbroken, label, value, low, high, rfl, h label hslid, hbounds⟩

namespace Draw

/-- What is left of a scene in which nothing has been broken off: still nothing, or else the last
that has been noted is the call of a snapping slider. -/
structure Snapped (s : Scene Recorder) (outcome : Except Fault α) (t : Scene Recorder) : Prop where
  spends : s.device.Spends t.device
  whole : outcome ≠ .error .brokenOff → Unbroken t.journal
  broken : outcome = .error .brokenOff → BrokenOffBy s.device t.journal

theorem snapped_of_unbroken {s t : Scene Recorder} (reply : Except CallError α)
    (hspends : s.device.Spends t.device) (h : Unbroken t.journal) :
    Snapped s (replyOf reply) t :=
  ⟨hspends, fun _ => h, fun hbroken => by cases reply <;> cases hbroken⟩

theorem Snapped.after {s t u : Scene Recorder} {outcome : Except Fault α} (h : Snapped t outcome u)
    (hspends : s.device.Spends t.device) : Snapped s outcome u :=
  ⟨hspends.trans h.spends, h.whole, fun hbroken => (h.broken hbroken).of_spends hspends⟩

def SnapsLast (body : Draw Recorder α) : Prop :=
  ∀ s, Unbroken s.journal → Comes body s fun outcome t => Snapped s outcome t

theorem snapsLast_bind {body : Draw Recorder α} {next : α → Draw Recorder β} (h : SnapsLast body)
    (hnext : ∀ a, SnapsLast (next a)) : SnapsLast (body >>= next) := by
  intro s hs
  refine (h s hs).bind (fun a t ht => ?_) fun f t ht => ⟨ht.spends, ?_, ?_⟩
  · exact (hnext a t (ht.whole nofun)).mono fun _ _ hu => hu.after ht.spends
  · exact fun hne => ht.whole fun hf => hne (congrArg Except.error (Except.error.inj hf))
  · exact fun hf => ht.broken (congrArg Except.error (Except.error.inj hf))

theorem snapsLast_attempt {body : Draw Recorder α} (h : SnapsLast body) :
    SnapsLast (attempt body) := by
  intro s hs
  rw [← bind_pure (attempt body)]
  refine (h s hs).attempting (fun reply t ht => ?_) fun t ht => ?_
  · exact ⟨.ok reply, t, rfl, ht.spends, fun _ => ht.whole (by cases reply <;> nofun), nofun⟩
  · exact ⟨ht.spends, fun hne => absurd rfl hne, fun _ => ht.broken rfl⟩

theorem snapsLast_within {body : Draw Recorder α} (e : Element) (h : SnapsLast body) :
    SnapsLast (within e body) := by
  intro s hs
  refine Comes.within ((h { s with ancestors := s.ancestors ++ [e] } hs).mono fun _ t ht => ?_)
  unfold outside
  split
  · exact ⟨ht.spends, ht.whole, ht.broken⟩
  · exact ⟨ht.spends, ht.whole, ht.broken⟩

theorem snapsLast_asking (c : Call) {next : Except CallError c.Answer → Draw Recorder α}
    (hnext : ∀ reply, SnapsLast (next reply)) :
    SnapsLast (attempt (issue Recorder.backend c) >>= next) := by
  intro s hs
  obtain ⟨hspends, hsnaps⟩ := Recorder.reply_cases c s.device
  have hline : Unbroken (s.journal ++ [.traced (.line c.traceLine)]) :=
    (unbroken_append _ _).2 ⟨hs, List.forall_mem_singleton.2 rfl⟩
  have hjournal : (asked Recorder.backend c s).journal =
      s.journal ++ [.traced (.line c.traceLine)] ++
        [.called c (Recorder.backend.reply c s.device)] := List.append_cons _ _ _
  refine Comes.asking Recorder.backend c (fun reply hreply => ?_) fun hbroken =>
    ⟨hspends, fun hne => absurd rfl hne, fun _ => ?_⟩
  · have hasked : Unbroken (asked Recorder.backend c s).journal := by
      rw [hjournal, hreply]
      refine (unbroken_append _ _).2 ⟨hline, List.forall_mem_singleton.2 ?_⟩
      cases reply with
      | ok a => rfl
      | error e => rfl
    exact (hnext reply (asked Recorder.backend c s) hasked).mono fun _ _ ht => ht.after hspends
  · rw [hjournal, hbroken]
    exact ⟨_, c, rfl, hline, hsnaps hbroken⟩

theorem law_snapsLast : Law Recorder.backend fun _ _ body => SnapsLast body where
  steady := by
    rintro _ _ body ⟨outcome, hsteady⟩ s hs
    obtain ⟨t, hrun, honward⟩ := hsteady s
    obtain ⟨events, hjournal, hincidental⟩ := honward.journal
    refine ⟨_, t, hrun, snapped_of_unbroken _ ?_ ?_⟩
    · rw [honward.device]
      exact .refl _
    · rw [hjournal]
      exact (unbroken_append _ _).2 ⟨hs, unbroken_of_incidental events hincidental⟩
  bind := snapsLast_bind
  attempt := snapsLast_attempt
  within := snapsLast_within
  readState id default := fun s hs =>
    ⟨.ok _, { s with store := (s.store.read id default).2 }, rfl, .refl _, fun _ => hs, nofun⟩
  writeState id value _ := fun s hs =>
    ⟨.ok (), { s with store := s.store.write id value }, rfl, .refl _, fun _ => hs, nofun⟩
  asking c _ h := snapsLast_asking c h

theorem document_snapsLast (stage : Stage Recorder) (h : stage.backend = Recorder.backend)
    (root : Element) : SnapsLast (drawDocument stage root) := by
  have hlaw := law_snapsLast
  rw [← h] at hlaw
  exact hlaw.document True root

end Draw

/-! ### One frame -/

namespace Renderer

variable (r : Renderer Recorder) (device : Recorder) (markup stylesheet : String)

theorem unbroken_opened (notes : List Event) (h : Commentary notes) :
    Unbroken (opened (r.scene device) notes).journal :=
  List.forall_mem_cons.2 ⟨rfl, unbroken_of_incidental notes h.incidental⟩

theorem unbroken_closed (t : Scene Recorder) (h : Unbroken t.journal) :
    Unbroken (closed t).journal := by
  refine (unbroken_append _ _).2 ⟨h, (unbroken_append _ _).2 ⟨?_, ?_⟩⟩
  · exact unbroken_of_incidental _ (incidental_records _)
  · intro ev hev
    rcases List.mem_pair.1 hev with rfl | rfl
    · rfl
    · rfl

/-- Every frame on a recorder comes to its verdict, or else the last that it notes is the call by
which the recorder broke it off: a slider that is slid and whose bounds are out of order. -/
theorem render_recorder (hbackend : r.backend = some Recorder.backend) :
    let x := (r.render device markup stylesheet).value
    (x.status = some (r.verdict markup stylesheet) ∧ Unbroken x.journal) ∨
      (x.status = none ∧ BrokenOffBy device x.journal) := by
  intro x
  by_cases h : r.verdict markup stylesheet = .rendered
  · obtain ⟨backend, sheet, notes, outcome, t, hsome, hnotes, hdrawn, hcases, hstatus, hjournal⟩ :=
      r.render_drawn markup stylesheet h device
    obtain rfl : Recorder.backend = backend := Option.some.inj (hbackend.symm.trans hsome)
    obtain ⟨_, hwhole, hbroken⟩ :=
      (Draw.document_snapsLast ⟨Recorder.backend, r.config, sheet⟩ rfl _
        (opened (r.scene device) notes) (r.unbroken_opened device notes hnotes)).of_run hdrawn
    rcases hcases with rfl | rfl
    · refine .inl ⟨hstatus.trans (congrArg some h.symm), ?_⟩
      show Unbroken (r.render device markup stylesheet).value.journal
      rw [hjournal]
      exact unbroken_closed t (hwhole nofun)
    · refine .inr ⟨hstatus, ?_⟩
      show BrokenOffBy device (r.render device markup stylesheet).value.journal
      rw [hjournal]
      exact hbroken rfl
  · obtain ⟨notes, hnotes, hstatus, hjournal⟩ := r.render_undrawn markup stylesheet h device
    refine .inl ⟨hstatus, ?_⟩
    show Unbroken (r.render device markup stylesheet).value.journal
    rw [hjournal]
    refine (unbroken_append _ _).2 ⟨r.unbroken_opened device notes hnotes, ?_⟩
    intro ev hev
    rcases List.mem_pair.1 hev with rfl | rfl
    · rfl
    · rfl

/-! ### A slider that breaks its frame off -/

def recordingRenderer : Renderer Recorder :=
  { (ofConfig {} : Renderer Recorder) with backend := some Recorder.backend }

/-- A recorder with a slide for the slider of `bounded`. -/
def slidRecorder : Recorder := ({} : Recorder).slide "L" .half

/-- A document of one slider. -/
def bounded (low high : String) : String :=
  "<App><SliderFloat label='L' min='" ++ low ++ "' max='" ++ high ++ "'/></App>"

/-- The same slide with the bounds in order and out of order. -/
theorem render_recorder_slid :
    let frame := fun low high => (recordingRenderer.render slidRecorder (bounded low high) "").value
    recordingRenderer.backend = some Recorder.backend ∧
      (frame "0" "1").status = some .rendered ∧ Unbroken (frame "0" "1").journal ∧
        (frame "1" "0").status = none ∧ BrokenOffBy slidRecorder (frame "1" "0").journal := by
  intro frame
  have hordered : (frame "0" "1").status = some .rendered := by decide +kernel
  have hswapped : (frame "1" "0").status = none := by decide +kernel
  refine ⟨rfl, hordered, ?_, hswapped, ?_⟩
  · rcases render_recorder recordingRenderer slidRecorder (bounded "0" "1") "" rfl with h | h
    · exact h.2
    · cases hordered.symm.trans h.1
  · rcases render_recorder recordingRenderer slidRecorder (bounded "1" "0") "" rfl with h | h
    · cases hswapped.symm.trans h.1
    · exact h.2

/-- Markup can swap the bounds of a slider, and a frame with a slide for it then comes to no
status at all, although nothing stands in the way of its drawing. -/
theorem exists_render_statusless :
    ∃ device markup, recordingRenderer.verdict markup "" = .rendered ∧
      (recordingRenderer.render device markup "").value.status = none :=
  ⟨slidRecorder, bounded "1" "0", by decide +kernel, by decide +kernel⟩

end Renderer
end FrameUI.Frame
