import FrameUI.Proofs.Frame.Lifetimes

/-!
# The watch over a document

While a document is drawn, whoever reads the journal as it grows knows what the store holds under
a key. Main statement: every tree of elements keeps the store and the watch in step, as long as no
pop is refused (`walk_keeps`).
-/

namespace FrameUI.Frame

open FrameUI.Markup (Element)
open FrameUI.Style (ComputedStyle)

variable {σ α β : Type}

/-! ### Parts of a frame -/

/-- In a scene of a frame the store agrees with what has been seen, as long as no pop was
refused. -/
def Watched (id : String) (kind : Markup.Tag) (grace : Nat) (w : Watch) (s : Scene σ) : Prop :=
  PopsAccepted s.journal → Follows id kind grace (w.seeAll id s.journal) s.store

/-- A part of the drawing after which a property of scenes holds again. -/
def Draw.Keeps (I : Scene σ → Prop) (body : Draw σ α) : Prop :=
  ∀ s, I s → Draw.Ends body s fun _ t => I t

theorem Draw.Keeps.bind (I : Scene σ → Prop) (body : Draw σ α) (next : α → Draw σ β)
    (h : Draw.Keeps I body) (hnext : ∀ a, Draw.Keeps I (next a)) :
    Draw.Keeps I (body >>= next) := by
  intro s hs
  apply Draw.Ends.bind body next s _ _ (h s hs)
  · exact fun a t ht => hnext a t ht
  · exact fun _ _ ht => ht

theorem Draw.Keeps.attempt (I : Scene σ → Prop) (body : Draw σ α) (h : Draw.Keeps I body) :
    Draw.Keeps I (Draw.attempt body) :=
  fun s hs => Draw.Ends.attempt body s _ (h s hs)

section Parts

variable {id : String} {kind : Markup.Tag} {grace : Nat} {w : Watch}

theorem Watched.later {s t : Scene σ} {events : List Event} (h : Watched id kind grace w s)
    (hstore : t.store = s.store) (hjournal : t.journal = s.journal ++ events)
    (hblind : ∀ v : Watch, v.seeAll id events = v) : Watched id kind grace w t := by
  intro hpops
  rw [hjournal] at hpops
  rw [hjournal, Watch.seeAll_append, hblind, hstore]
  exact h fun ev hev => hpops ev (List.mem_append_left _ hev)

theorem keeps_idles (body : Draw σ α) (h : Draw.Idles body) :
    Draw.Keeps (Watched id kind grace w) body := by
  intro s hs
  apply Draw.Ends.mono body s _ _ (h s)
  intro _ t hparts
  obtain ⟨events, hlater, hasides⟩ := hparts
  exact hs.later hlater.store hlater.journal fun v => v.seeAll_of_asides id events hasides

theorem keeps_within (e : Element) (body : Draw σ α)
    (h : Draw.Keeps (Watched id kind grace w) body) :
    Draw.Keeps (Watched id kind grace w) (Draw.within e body) :=
  fun s hs => Draw.Ends.within e body s _ (h { s with ancestors := s.ancestors ++ [e] } hs)

theorem keeps_contain (source report : String) (e : Element) (body : Draw σ Unit)
    (h : Draw.Keeps (Watched id kind grace w) body) :
    Draw.Keeps (Watched id kind grace w) (Draw.contain source report e body) := by
  refine Draw.Keeps.bind _ _ _ (h.attempt _ _) fun outcome => keeps_idles _ ?_
  cases outcome with
  | ok _ => exact Draw.idles_pure _
  | error err => exact Draw.Idles.bind _ _ (Draw.idles_log _ _ _) fun _ => Draw.idles_trace _

theorem Pressed.seeAll_eq (id : String) (v : Watch) (fs : List Firing) (events : List Event)
    (h : Pressed fs events) : v.seeAll id events = v := by
  have hcall : ∀ label (reply : Except Fault Bool),
      v.see id (.called (.button label) reply) = v := by
    intro label reply
    rw [Watch.see, Watch.note]
    split
    · simp [Call.handed?, Event.reported?]
    · rfl
  cases h with
  | failed _ hasides => exact v.seeAll_of_asides id events hasides
  | unclicked before after label reply hbefore hafter _ =>
    rw [v.seeAll_around id before after _ _ hbefore hafter.runs, hcall]
  | clicked before after label hbefore hruns =>
    rw [v.seeAll_around id before after _ _ hbefore hruns, hcall]

end Parts

/-! ### Widgets -/

section Widgets

variable (id : String) (kind : Markup.Tag) (grace : Nat) (w : Watch) (stage : Stage σ)
  (e : Element) (style : ComputedStyle)

theorem seeAll_entering (s : Scene σ) (journal : List Event) :
    w.seeAll id (s.journal ++ entrance e s.ancestors style ++ journal) =
      ((w.seeAll id s.journal).enter
        (if stateKey e s.ancestors = id then seedOf? e else none)).seeAll id journal := by
  rw [Watch.seeAll_append, Watch.seeAll_append]
  rfl

theorem watched_entering (s : Scene σ) (hs : Watched id kind grace w s)
    (hother : (if stateKey e s.ancestors = id then seedOf? e else none) = none) :
    Watched id kind grace w (s.entering e style) := by
  intro hpops
  have hfollows := hs fun ev hev => hpops ev (List.mem_append_left _ hev)
  have hseen := seeAll_entering id w e style s []
  rw [hother, List.append_nil] at hseen
  show Follows id kind grace (w.seeAll id (s.journal ++ entrance e s.ancestors style)) s.store
  rw [hseen]
  exact hfollows.elsewhere s.store false rfl rfl rfl

theorem watched_visits (popsFirst : Bool) (seed : WidgetValue) (hseed : seedOf? e = some seed)
    (s t : Scene σ) (hs : Watched id kind grace w s)
    (hvisits : Visits popsFirst seed e (s.entering e style) t) : Watched id kind grace w t := by
  have hbefore : ∀ events, PopsAccepted (s.journal ++ entrance e s.ancestors style ++ events) →
      Follows id kind grace (w.seeAll id s.journal) s.store := fun events hpops =>
    hs fun ev hev => hpops ev (List.mem_append_left _ (List.mem_append_left _ hev))
  by_cases hid : stateKey e s.ancestors = id
  · obtain ⟨events, hjournal, hfollows⟩ := hvisits.follows hid
    intro hpops
    change t.journal = s.journal ++ entrance e s.ancestors style ++ events at hjournal
    rw [hjournal] at hpops
    rw [hjournal, seeAll_entering, if_pos hid, hseed]
    exact hfollows (fun ev hev => hpops ev (List.mem_append_right _ hev)) kind grace _
      (hbefore events hpops)
  · obtain ⟨events, hjournal, hfollows⟩ := hvisits.follows_elsewhere hid
    intro hpops
    change t.journal = s.journal ++ entrance e s.ancestors style ++ events at hjournal
    rw [hjournal] at hpops
    rw [hjournal, seeAll_entering, if_neg hid]
    exact hfollows kind grace _ rfl ((hbefore events hpops).elsewhere s.store false rfl rfl rfl)

theorem keeps_window (children : Draw σ Unit)
    (hchildren : Draw.Keeps (Watched id kind grace w) children) :
    Draw.Keeps (Watched id kind grace w) (drawWindow stage e style children) := by
  have hrules := Draw.rules_idles stage.backend
  have hbegin := hrules.issue (k := .anywhere) (.beginWindow ((e.attribute? "title").getD "Window")
    stage.config.windowFlags) rfl
  rw [drawWindow_eq]
  refine Draw.Keeps.bind _ _ _ (keeps_idles _ (hrules.setWindowSize (k := .anywhere) style))
    fun _ => ?_
  refine Draw.Keeps.bind _ _ _ (keeps_idles _ (hrules.pushColors (k := .anywhere) _)) fun n => ?_
  refine Draw.Keeps.bind _ _ _ (keeps_idles _ (hrules.attempt (k := .anywhere) hbegin))
    fun opened => ?_
  have hinside : Draw.Keeps (Watched id kind grace w) (inWindow e children opened) := by
    rcases opened with err | _ | _
    · exact keeps_idles _ (Draw.idles_pure ())
    · exact keeps_idles _ (Draw.idles_pure ())
    · exact keeps_contain _ _ e children hchildren
  exact Draw.Keeps.bind _ _ _ hinside fun _ =>
    keeps_idles _ (hrules.closeWindow (k := .anywhere) n opened fun _ _ => trivial)

/-- In its manner an entered element keeps the store and the watch in step. One that keeps no
value leaves the key to its children. -/
theorem ends_manner (children : Draw σ Unit)
    (hchildren : Draw.Keeps (Watched id kind grace w) children) (s : Scene σ)
    (hs : Watched id kind grace w s) (m : Manner) (hseed : seedOf? e = m.seed?) :
    Draw.Ends (m.draw stage e style children) (s.entering e style) fun _ t =>
      Watched id kind grace w t := by
  have hrules := Draw.rules_idles stage.backend
  have hwithin := keeps_within e children hchildren
  have hother : m.seed? = none → Watched id kind grace w (s.entering e style) := by
    intro hnone
    apply watched_entering id kind grace w e style s hs
    rw [hseed, hnone, ite_self]
  cases m with
  | nothing => exact keeps_idles _ (Draw.idles_pure ()) _ (hother rfl)
  | warning => exact keeps_idles _ (Draw.idles_log _ _ _) _ (hother rfl)
  | inside => exact hwithin _ (hother rfl)
  | window => exact keeps_window id kind grace w stage e style _ hwithin _ (hother rfl)
  | button =>
    apply Draw.Ends.mono _ _ _ _ (ends_button stage e style _)
    intro _ t hpressed
    obtain ⟨hstore, _, events, hjournal, hevents⟩ := hpressed
    exact (hother rfl).later hstore hjournal fun v => hevents.seeAll_eq id v _ _
  | call c _ haside =>
    exact keeps_idles _ (hrules.tell (k := .anywhere) c haside) _ (hother rfl)
  | field f =>
    apply Draw.Ends.mono _ _ _ _ (ends_field stage e style _ f)
    exact fun _ t => watched_visits id kind grace w e style _ _ hseed s t hs

theorem keeps_widget (children : Draw σ Unit)
    (hchildren : Draw.Keeps (Watched id kind grace w) children) :
    Draw.Keeps (Watched id kind grace w) (drawWidget stage e style children) := by
  intro s hs
  rw [drawWidget_eq]
  exact Draw.Comes.entering (ends_manner id kind grace w stage e style children hchildren s hs _
    (seedOf?_eq stage.config e style))

end Widgets

/-! ### Trees -/

section Trees

variable (id : String) (kind : Markup.Tag) (grace : Nat) (w : Watch) (stage : Stage σ)

theorem keeps_styled (source report : String) (e : Element) (children : Draw σ Unit)
    (hchildren : Draw.Keeps (Watched id kind grace w) children) :
    Draw.Keeps (Watched id kind grace w) (drawStyled stage source report e children) := by
  refine Draw.Keeps.bind _ _ _ (keeps_idles _ (Draw.idles_styleOf stage.sheet e)) fun style => ?_
  exact keeps_contain _ _ e _ (keeps_widget id kind grace w stage e style children hchildren)

/-- Trees of elements keep the store and the watch in step. -/
theorem walk_keeps : Walk stage stage fun _ body _ =>
    Draw.Keeps (Watched id kind grace w) body where
  nothing := keeps_idles _ (Draw.idles_pure ())
  run text := keeps_idles _ ((Draw.rules_idles stage.backend).drawRun (k := .anywhere) text)
  next h hnext := Draw.Keeps.bind _ _ _ h fun _ => hnext
  element source report e _ _ h := keeps_styled id kind grace w stage source report e _ h

theorem keeps_document (root : Element) :
    Draw.Keeps (Watched id kind grace w) (drawDocument stage root) :=
  (walk_keeps id kind grace w stage).document root

end Trees

end FrameUI.Frame
