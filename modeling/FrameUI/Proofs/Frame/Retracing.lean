import FrameUI.Proofs.Frame.Laws

/-!
# Drawing the same again

A part of a drawing is run once, and later once more, from a store that still has the values that
the first run had used by its end. Main statement: if no change is reported in the first run, and
the backend replies to the second as to the first, the two runs issue the same calls
(`Draw.law_retraces`).
-/

namespace FrameUI.Frame

open FrameUI.Markup (Element)

variable {σ α : Type}

/-! ### Values that have been used -/

namespace Store

def value? (s : Store) (id : String) : Option WidgetValue := (s.find? id).map StoreEntry.value

/-- The value under a key that has been used in the current frame. -/
def usedValue? (s : Store) (id : String) : Option WidgetValue :=
  ((s.find? id).filter fun w => w.lastFrame == s.frame).map StoreEntry.value

/-- In the second store the values that had been used in the first are still the same. -/
def Keeps (s t : Store) : Prop := ∀ id v, s.usedValue? id = some v → t.usedValue? id = some v

theorem Keeps.refl (s : Store) : s.Keeps s := fun _ _ h => h

theorem Keeps.trans {s t u : Store} (h : s.Keeps t) (h' : t.Keeps u) : s.Keeps u :=
  fun id v hv => h' id v (h id v hv)

def Recalls (s used : Store) : Prop :=
  ∀ id v, used.usedValue? id = some v → s.value? id = some v

theorem usedValue?_read_self (s : Store) (id : String) (default : WidgetValue) :
    (s.read id default).2.usedValue? id = some (s.read id default).1 := by
  have hframe : (s.read id default).2.frame = s.frame := rfl
  rw [usedValue?, find?_read, if_pos rfl, hframe]
  simp [lastFrame_stamped, read]

theorem keeps_read (s : Store) (id : String) (default : WidgetValue) :
    s.Keeps (s.read id default).2 := by
  intro key v h
  by_cases hkey : id = key
  · subst hkey
    rw [usedValue?_read_self]
    obtain ⟨w, hw, rfl⟩ := Option.map_eq_some_iff.1 h
    have hfind := (Option.filter_eq_some_iff.1 hw).1
    exact congrArg some (s.value_stamped_of_find? id default w hfind)
  · have hframe : (s.read id default).2.frame = s.frame := rfl
    rw [usedValue?, find?_read, if_neg hkey, hframe]
    exact h

theorem Recalls.read {s used : Store} (h : s.Recalls used) (id : String) (default v : WidgetValue)
    (hv : used.usedValue? id = some v) :
    (s.read id default).1 = v ∧ (s.read id default).2.Recalls used := by
  obtain ⟨w, hw, rfl⟩ := Option.map_eq_some_iff.1 (h id v hv)
  have hvalue := s.value_stamped_of_find? id default w hw
  refine ⟨hvalue, fun key u hu => ?_⟩
  rw [value?, find?_read]
  by_cases hkey : id = key
  · subst hkey
    rw [hv] at hu
    rw [if_pos rfl, ← hu]
    exact congrArg some hvalue
  · rw [if_neg hkey]
    exact h key u hu

/-- The next frame still has every value that was used in this one, whatever the grace period. -/
theorem recalls_advance_sweep (s : Store) : s.sweep.value.advance.value.Recalls s := by
  intro id v hv
  obtain ⟨w, hw, rfl⟩ := Option.map_eq_some_iff.1 hv
  obtain ⟨hfind, hused⟩ := Option.filter_eq_some_iff.1 hw
  have hlast : w.lastFrame = s.frame := by simpa using hused
  have hfresh : s.isFresh w = true := by
    simp only [isFresh, decide_eq_true_eq]
    omega
  have hswept : s.sweep.value.find? id = some w := by
    rw [find?_sweep, hfind, Option.filter_some, if_pos hfresh]
  exact congrArg (Option.map StoreEntry.value) hswept

theorem recalls_advance (s : Store) : s.advance.value.Recalls s := by
  intro id v hv
  obtain ⟨w, hw, rfl⟩ := Option.map_eq_some_iff.1 hv
  have hfind := (Option.filter_eq_some_iff.1 hw).1
  exact congrArg (Option.map StoreEntry.value) hfind

end Store

/-! ### Devices in front of the same backend -/

namespace Backend

variable (b : Backend σ)

def hearing (device : σ) (calls : List Call) : σ :=
  calls.foldl (fun device c => b.after c device) device

/-- After any calls the backend replies the same with one device as with the other. -/
def Alike (device device' : σ) : Prop :=
  ∀ calls c, b.reply c (b.hearing device' calls) = b.reply c (b.hearing device calls)

variable {b}

theorem Alike.reply {device device' : σ} (h : b.Alike device device') (c : Call) :
    b.reply c device' = b.reply c device := h [] c

theorem Alike.after {device device' : σ} (h : b.Alike device device') (c : Call) :
    b.Alike (b.after c device) (b.after c device') := fun calls => h (c :: calls)

end Backend

/-! ### Running a part again -/

def Unchanging (events : List Event) : Prop := ∀ ev ∈ events, ev.reported? = none

theorem unchanging_append (events more : List Event) :
    Unchanging (events ++ more) ↔ Unchanging events ∧ Unchanging more := List.forall_mem_append

/-- A scene from which a part can be run as it was from another one: the elements around are the
same, the devices are alike, and the store recalls what has been used. -/
structure Mirrors (b : Backend σ) (used : Store) (s t : Scene σ) : Prop where
  ancestors : t.ancestors = s.ancestors
  device : b.Alike s.device t.device
  store : t.store.Recalls used

namespace Draw

/-- From every scene that mirrors the first one, a part that went from the first scene to a second
goes to a scene that mirrors the second, with the same outcome and calls. It is enough to recall
what has been used by the end of the run, or at any later time. -/
def Again (b : Backend σ) (body : Draw σ α) (outcome : Except Fault α) (s s' : Scene σ)
    (events : List Event) : Prop :=
  ∀ used t, s'.store.Keeps used → Mirrors b used s t →
    ∃ t' more, body t = ending outcome t' ∧ t'.journal = t.journal ++ more ∧
      issued more = issued events ∧ Mirrors b used s' t'

/-- A part that can be run again if it is live and no change has been reported. -/
def Retraces (b : Backend σ) (live : Prop) (body : Draw σ α) : Prop :=
  ∀ s, ∃ outcome s' events, body s = ending outcome s' ∧ s'.journal = s.journal ++ events ∧
    (live → Unchanging events → s.store.Keeps s'.store ∧ Again b body outcome s s' events)

variable {b : Backend σ} {live : Prop}

theorem Steady.retraces {body : Draw σ α} (h : Steady body) : Retraces b live body := by
  obtain ⟨outcome, hsteady⟩ := h
  intro s
  obtain ⟨s', hrun, honward⟩ := hsteady s
  obtain ⟨events, hjournal, hincidental⟩ := honward.journal
  refine ⟨replyOf (outcome s.ancestors), s', events, hrun, hjournal, fun _ _ => ⟨?_, ?_⟩⟩
  · rw [honward.store]
    exact .refl s.store
  · intro used t _ hmirrors
    obtain ⟨t', hrun', honward'⟩ := hsteady t
    obtain ⟨more, hjournal', hincidental'⟩ := honward'.journal
    rw [hmirrors.ancestors] at hrun'
    refine ⟨t', more, hrun', hjournal', ?_, ?_, ?_, ?_⟩
    · rw [issued_of_incidental more hincidental', issued_of_incidental events hincidental]
    · rw [honward'.ancestors, honward.ancestors, hmirrors.ancestors]
    · rw [honward'.device, honward.device]
      exact hmirrors.device
    · rw [honward'.store]
      exact hmirrors.store

theorem mirrors_asked {used : Store} {s t : Scene σ} (h : Mirrors b used s t) (c : Call) :
    Mirrors b used (asked b c s) (asked b c t) :=
  ⟨h.ancestors, h.device.after c, h.store⟩

theorem retraces_bind {β : Type} {body : Draw σ α} {next : α → Draw σ β}
    (hbody : Retraces b live body) (hnext : ∀ a, Retraces b live (next a)) :
    Retraces b live (body >>= next) := by
  intro s
  obtain ⟨outcome, u, before, hrun, hjournal, hagain⟩ := hbody s
  cases outcome with
  | error f =>
    refine ⟨.error f, u, before, bind_of_error body next s u f hrun, hjournal,
      fun hlive hsame => ?_⟩
    obtain ⟨hkeeps, hagain⟩ := hagain hlive hsame
    refine ⟨hkeeps, fun used t hused hmirrors => ?_⟩
    obtain ⟨t', more, hrun', hrest⟩ := hagain used t hused hmirrors
    exact ⟨t', more, bind_of_error body next t t' f hrun', hrest⟩
  | ok a =>
    obtain ⟨result, s', after, hlast, hjournal', hagain'⟩ := hnext a u
    refine ⟨result, s', before ++ after, bind_of_ending body next s u s' a result hrun hlast, ?_,
      fun hlive hsame => ?_⟩
    · rw [hjournal', hjournal, List.append_assoc]
    · obtain ⟨hbefore, hafter⟩ := (unchanging_append _ _).1 hsame
      obtain ⟨hkeeps, hagain⟩ := hagain hlive hbefore
      obtain ⟨hkeeps', hagain'⟩ := hagain' hlive hafter
      refine ⟨hkeeps.trans hkeeps', fun used t hused hmirrors => ?_⟩
      -- Whatever the first part has used is still among what has been used after the second.
      obtain ⟨v, more, hrun', hnoted, hissued, hmirrors⟩ :=
        hagain used t (hkeeps'.trans hused) hmirrors
      obtain ⟨t', more', hlast', hnoted', hissued', hmirrors⟩ := hagain' used v hused hmirrors
      refine ⟨t', more ++ more', bind_of_ending body next t v t' a result hrun' hlast', ?_, ?_,
        hmirrors⟩
      · rw [hnoted', hnoted, List.append_assoc]
      · rw [issued_append, issued_append, hissued, hissued']

theorem retraces_attempt {body : Draw σ α} (h : Retraces b live body) :
    Retraces b live (attempt body) := by
  intro s
  obtain ⟨outcome, s', events, hrun, hjournal, hagain⟩ := h s
  refine ⟨caught outcome, s', events, attempt_of_ending body s s' outcome hrun, hjournal,
    fun hlive hsame => ?_⟩
  obtain ⟨hkeeps, hagain⟩ := hagain hlive hsame
  refine ⟨hkeeps, fun used t hused hmirrors => ?_⟩
  obtain ⟨t', more, hrun', hrest⟩ := hagain used t hused hmirrors
  exact ⟨t', more, attempt_of_ending body t t' outcome hrun', hrest⟩

theorem mirrors_outside {used : Store} {s t : Scene σ} (h : Mirrors b used s t)
    (outcome : Except Fault α) : Mirrors b used (outside outcome s) (outside outcome t) := by
  unfold outside
  split
  · exact h
  · exact { h with ancestors := congrArg List.dropLast h.ancestors }

theorem parts_outside (outcome : Except Fault α) (t : Scene σ) :
    (outside outcome t).journal = t.journal ∧ (outside outcome t).store = t.store := by
  unfold outside
  split
  · exact ⟨rfl, rfl⟩
  · exact ⟨rfl, rfl⟩

theorem retraces_within {body : Draw σ α} (e : Element) (h : Retraces b live body) :
    Retraces b live (within e body) := by
  intro s
  obtain ⟨outcome, s', events, hrun, hjournal, hagain⟩ :=
    h { s with ancestors := s.ancestors ++ [e] }
  obtain ⟨hsame', hstore'⟩ := parts_outside outcome s'
  refine ⟨outcome, outside outcome s', events, within_of_ending e body s s' outcome hrun, ?_,
    fun hlive hsame => ?_⟩
  · rw [hsame']
    exact hjournal
  · obtain ⟨hkeeps, hagain⟩ := hagain hlive hsame
    rw [← hstore'] at hkeeps
    refine ⟨hkeeps, fun used t hused hmirrors => ?_⟩
    rw [hstore'] at hused
    obtain ⟨t', more, hrun', hnoted, hissued, hmirrors⟩ :=
      hagain used { t with ancestors := t.ancestors ++ [e] } hused
        { hmirrors with ancestors := congrArg (· ++ [e]) hmirrors.ancestors }
    obtain ⟨hnoted', _⟩ := parts_outside outcome t'
    refine ⟨outside outcome t', more, within_of_ending e body t t' outcome hrun', ?_, hissued,
      mirrors_outside hmirrors outcome⟩
    rw [hnoted']
    exact hnoted

theorem retraces_readState (id : String) (default : WidgetValue) :
    Retraces b live (readState id default) := by
  intro s
  refine ⟨.ok (s.store.read id default).1, { s with store := (s.store.read id default).2 }, [], rfl,
    (List.append_nil _).symm, fun _ _ => ⟨s.store.keeps_read id default, ?_⟩⟩
  intro used t hused hmirrors
  -- What is read here counts as used from now on, whatever widget has created the entry.
  have hread := hused id _ (s.store.usedValue?_read_self id default)
  obtain ⟨hvalue, hstore⟩ := hmirrors.store.read id default _ hread
  refine ⟨{ t with store := (t.store.read id default).2 }, [], ?_, (List.append_nil _).symm, rfl,
    ⟨hmirrors.ancestors, hmirrors.device, hstore⟩⟩
  rw [← hvalue]
  rfl

/-- A call gets the same reply again, and so does what follows it. -/
theorem retraces_asking (c : Call) {next : Except CallError c.Answer → Draw σ α}
    (hnext : ∀ reply,
      Retraces b (live ∧ (Event.called c (replyOf reply)).reported? = none) (next reply)) :
    Retraces b live (attempt (issue b c) >>= next) := by
  intro s
  let noted (t : Scene σ) : List Event :=
    [.traced (.line c.traceLine), .called c (b.reply c t.device)]
  have hnoted : ∀ {used t}, Mirrors b used s t → noted t = noted s := by
    intro used t hmirrors
    simp only [noted, hmirrors.device.reply c]
  rcases brokenOff_or_replyOf (b.reply c s.device) with hbroken | ⟨reply, hreply⟩
  · refine ⟨.error .brokenOff, asked b c s, noted s,
      attempt_issue_bind_of_brokenOff b c next s hbroken, rfl, fun _ _ => ⟨.refl s.store, ?_⟩⟩
    intro used t _ hmirrors
    have hbroken' := (hmirrors.device.reply c).trans hbroken
    exact ⟨asked b c t, noted t, attempt_issue_bind_of_brokenOff b c next t hbroken', rfl,
      congrArg issued (hnoted hmirrors), mirrors_asked hmirrors c⟩
  · obtain ⟨outcome, s', events, hrun, hjournal, hagain⟩ := hnext reply (asked b c s)
    refine ⟨outcome, s', noted s ++ events,
      (attempt_issue_bind_of_reply b c next s reply hreply).trans hrun, ?_, fun hlive hsame => ?_⟩
    · rw [hjournal, asked, List.append_assoc]
    · obtain ⟨hcalled, hafter⟩ := (unchanging_append _ _).1 hsame
      -- The reply is no report, so what follows it is live.
      have hreported := hcalled (.called c (b.reply c s.device)) (by simp [noted])
      rw [hreply] at hreported
      obtain ⟨hkeeps, hagain⟩ := hagain ⟨hlive, hreported⟩ hafter
      refine ⟨hkeeps, fun used t hused hmirrors => ?_⟩
      have hreply' := (hmirrors.device.reply c).trans hreply
      obtain ⟨t', more, hrun', hjournal', hissued, hmirrors'⟩ :=
        hagain used (asked b c t) hused (mirrors_asked hmirrors c)
      refine ⟨t', noted t ++ more,
        (attempt_issue_bind_of_reply b c next t reply hreply').trans hrun', ?_, ?_, hmirrors'⟩
      · rw [hjournal', asked, List.append_assoc]
      · rw [issued_append, issued_append, hnoted hmirrors, hissued]

/-- Running again is a law of drawing. -/
theorem law_retraces (b : Backend σ) : Law b fun live _ body => Retraces b live body where
  steady := Steady.retraces
  bind := retraces_bind
  attempt := retraces_attempt
  within := retraces_within
  readState := retraces_readState
  writeState := fun id value hdead s =>
    ⟨.ok (), { s with store := s.store.write id value }, [], rfl, (List.append_nil _).symm,
      fun hlive => absurd hlive hdead⟩
  asking := retraces_asking

theorem retraces_document (stage : Stage σ) (root : Element) :
    Retraces stage.backend True (drawDocument stage root) :=
  (law_retraces stage.backend).document True root

end Draw
end FrameUI.Frame
