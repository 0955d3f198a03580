import FrameUI.Proofs.Frame.Touring

/-!
# Values handed over

A widget with a state hands the backend one value, in the one call that shows it, unless its
drawing ends in an error before that call. A stored value of its own kind is handed over, and
without a stored value the seed is. A value of another kind, which a widget of that kind has left
under the same key, makes a slider and a checkbox start from their seeds and a text field from the
empty text. Main statement: `drawElement_hands`; `exists_seed_not_handed` is a text field that
does not show its seed.
-/

namespace FrameUI.Frame

open FrameUI.Markup (Element)
open FrameUI.Style (ComputedStyle Rgba)

variable {σ α β : Type}

/-! ### What is handed over -/

def Event.handed? : Event → Option WidgetValue
  | called c _ => c.handed?
  | _ => none

/-- The values that the calls of a journal hand to the backend, in order. -/
def handings (events : List Event) : List WidgetValue := events.filterMap Event.handed?

theorem handings_append (events more : List Event) :
    handings (events ++ more) = handings events ++ handings more := List.filterMap_append

theorem handings_of_stateless (events : List Event) (h : ∀ ev ∈ events, ev.isStateless = true) :
    handings events = [] := by
  refine List.filterMap_eq_nil_iff.2 fun ev hev => ?_
  have hstateless := h ev hev
  cases ev with
  | called c reply => exact Option.isNone_iff_eq_none.1 hstateless
  | _ => rfl

/-- The value of a widget: what is stored, if it is of the widget's own kind, and the seed
otherwise. -/
def ownValue (seed : WidgetValue) (stored : Option WidgetValue) : WidgetValue :=
  (stored.filter fun v => v.kind == seed.kind).getD seed

/-- The value that a widget hands over. -/
def handedValue (seed : WidgetValue) (stored : Option WidgetValue) : WidgetValue :=
  match seed, stored with
  | .text _, some (.float _) | .text _, some (.bool _) => .text ""
  | _, _ => ownValue seed stored

/-- A later scene in which exactly one value has been handed over, or none because of an error. -/
def Scene.HandsOver (v : WidgetValue) (s : Scene σ) (outcome : Except Fault α) (t : Scene σ) :
    Prop :=
  ∃ events, t.journal = s.journal ++ events ∧
    (handings events = [v] ∨ handings events = [] ∧ ∃ fault, outcome = .error fault)

/-- A later scene in which nothing has been handed over. -/
def Scene.HandsNothing (s t : Scene σ) : Prop :=
  ∃ events, t.journal = s.journal ++ events ∧ handings events = []

theorem Scene.SameState.handsNothing {s t : Scene σ} (h : s.SameState t) : s.HandsNothing t := by
  obtain ⟨events, hjournal, hevents⟩ := h.journal
  exact ⟨events, hjournal, handings_of_stateless events hevents⟩

section
variable {v : WidgetValue} {s t u : Scene σ}

theorem Scene.HandsNothing.failed (h : s.HandsNothing t) (fault : Fault) :
    s.HandsOver v (.error fault : Except Fault α) t := by
  obtain ⟨events, hjournal, hnone⟩ := h
  exact ⟨events, hjournal, .inr ⟨hnone, fault, rfl⟩⟩

theorem Scene.HandsNothing.trans (h : s.HandsNothing t) (h' : t.HandsNothing u) :
    s.HandsNothing u := by
  obtain ⟨events, hjournal, hnone⟩ := h
  obtain ⟨more, hjournal', hnone'⟩ := h'
  refine ⟨events ++ more, ?_, ?_⟩
  · rw [hjournal', hjournal, List.append_assoc]
  · rw [handings_append, hnone, hnone', List.append_nil]

theorem Scene.HandsNothing.then (h : s.HandsNothing t) {outcome : Except Fault α}
    (h' : t.HandsOver v outcome u) : s.HandsOver v outcome u := by
  obtain ⟨events, hjournal, hnone⟩ := h
  obtain ⟨more, hjournal', hmore⟩ := h'
  refine ⟨events ++ more, ?_, ?_⟩
  · rw [hjournal', hjournal, List.append_assoc]
  · rw [handings_append, hnone, List.nil_append]
    exact hmore

end

/-! ### Parts that hand over nothing -/

namespace Draw

/-- A part in which nothing is handed over, whatever it writes. -/
def HandsNothing (body : Draw σ α) : Prop := ∀ s, Comes body s fun _ t => s.HandsNothing t

theorem Stateless.handsNothing {body : Draw σ α} (h : Stateless body) : HandsNothing body :=
  fun s => (h s).mono fun _ _ ht => ht.handsNothing

theorem handsNothing_writing {id : String} {value : WidgetValue} {next : Unit → Draw σ α}
    (h : Stateless (next ())) : HandsNothing (writeState id value >>= next) := fun s =>
  Comes.after rfl (h.handsNothing { s with store := s.store.write id value })

theorem Stateless.bind_hands {body : Draw σ α} {next : α → Draw σ β} {v : WidgetValue}
    {s : Scene σ} (h : Stateless body)
    (hnext : ∀ a t, Comes (next a) t fun outcome u => t.HandsOver v outcome u) :
    Comes (body >>= next) s fun outcome u => s.HandsOver v outcome u := by
  refine (h s).bind (fun a t ht => ?_) fun fault t ht => ht.handsNothing.failed fault
  exact (hnext a t).mono fun _ _ hu => ht.handsNothing.then hu

theorem Stateless.bind_handsNothing {body : Draw σ α} {next : α → Draw σ β} (h : Stateless body)
    (hnext : ∀ a, HandsNothing (next a)) : HandsNothing (body >>= next) := by
  intro s
  refine (h s).bind (fun a t ht => ?_) fun _ _ ht => ht.handsNothing
  exact (hnext a t).mono fun _ _ hu => ht.handsNothing.trans hu

/-- The call of a widget hands its value over, also when the backend breaks off, and what comes
behind it hands over nothing. -/
theorem asking_hands {backend : Backend σ} {c : Call} {v : WidgetValue}
    {next : Except CallError c.Answer → Draw σ α} {s : Scene σ} (hc : c.handed? = some v)
    (hnext : ∀ reply, HandsNothing (next reply)) :
    Comes (attempt (issue backend c) >>= next) s fun outcome u => s.HandsOver v outcome u := by
  have hasked : (asked backend c s).journal = s.journal ++
      [.traced (.line c.traceLine), .called c (backend.reply c s.device)] := rfl
  have hhanded : handings
      [.traced (.line c.traceLine), .called c (backend.reply c s.device)] = [v] := by
    have hevent : (Event.called c (backend.reply c s.device)).handed? = some v := hc
    rw [handings, List.filterMap_cons_none rfl, List.filterMap_cons_some hevent,
      List.filterMap_nil]
  refine Comes.asking backend c (fun reply _ => (hnext reply _).mono fun outcome u hu => ?_)
    fun _ => ⟨_, hasked, .inl hhanded⟩
  obtain ⟨events, hjournal, hnone⟩ := hu
  refine ⟨[.traced (.line c.traceLine), .called c (backend.reply c s.device)] ++ events, ?_,
    .inl ?_⟩
  · rw [hjournal, hasked, List.append_assoc]
  · rw [handings_append, hhanded, hnone, List.append_nil]

end Draw

/-! ### The widgets -/

/-- The value that is kept for an element in a scene, of whichever kind. -/
def Scene.stored? (s : Scene σ) (e : Element) : Option WidgetValue :=
  (s.store.find? (stateKey e s.ancestors)).map StoreEntry.value

theorem value_stamped (store : Store) (id : String) (seed : WidgetValue) :
    (store.stamped id seed).value = ((store.find? id).map StoreEntry.value).getD seed := by
  rw [Store.stamped, Store.find?]
  cases store.entries.find? id with
  | none => rfl
  | some entry => rfl

theorem text_handed (seed : String) (stored : Option WidgetValue) :
    .text ((stored.getD (.text seed)).text?.getD "") = handedValue (.text seed) stored := by
  rcases stored with _ | (_ | _ | _) <;> rfl

theorem float_handed (seed : Single) (stored : Option WidgetValue) :
    .float ((stored.getD (.float seed)).float?.getD seed) = handedValue (.float seed) stored := by
  rcases stored with _ | (_ | _ | _) <;> rfl

theorem bool_handed (seed : Bool) (stored : Option WidgetValue) :
    .bool ((stored.getD (.bool seed)).bool?.getD seed) = handedValue (.bool seed) stored := by
  rcases stored with _ | (_ | _ | _) <;> rfl

/-- What the widgets that keep a value hand over. -/
theorem handed?_of_manner {config : Config} {e : Element} {style : ComputedStyle} {f : Field}
    (h : manner config e style = .field f) (stored : Option WidgetValue) :
    (f.call (stored.getD f.seed)).handed? = some (handedValue f.seed stored) := by
  unfold manner at h
  split at h <;> cases h
  · exact congrArg some (text_handed (textSeed e) stored)
  · exact congrArg some (float_handed (sliderSeed e) stored)
  · exact congrArg some (bool_handed (checkboxSeed e) stored)

theorem handsNothing_heed (e : Element) (id : String) (c : Call)
    (reply : Except CallError c.Answer) {next : Draw σ Unit} (h : Draw.Stateless next) :
    Draw.HandsNothing (Draw.heed e id c reply >>= fun _ => next) := by
  cases hreported : (Event.called c (Draw.replyOf reply)).reported? with
  | none =>
    rw [Draw.heed_of_none e id hreported]
    exact ((Draw.stateless_pure ()).bind fun _ => h).handsNothing
  | some v =>
    rw [Draw.heed_of_some e id hreported, bind_assoc]
    exact Draw.handsNothing_writing ((Draw.stateless_notify e "onChange").bind fun _ => h)

section Widgets

variable (stage : Stage σ) (e : Element) (style : ComputedStyle) (s : Scene σ)

theorem painted_hands (id : String) (colors : List (ColorSlot × Rgba)) (popsFirst : Bool)
    {c : Call} {v : WidgetValue} (hc : c.handed? = some v) :
    Draw.Comes (painted stage colors popsFirst c (Draw.heed e id c)) s fun outcome t =>
      s.HandsOver v outcome t := by
  have hrules := Draw.rules_stateless stage.backend
  refine (hrules.pushColors (k := .anywhere) colors).bind_hands fun n t => ?_
  refine Draw.asking_hands hc fun reply => ?_
  cases popsFirst with
  | true =>
    refine (hrules.popColors (k := .anywhere) n).bind_handsNothing fun _ => ?_
    cases reply with
    | error err => exact (hrules.refused (k := .anywhere) err _ trivial).handsNothing
    | ok a =>
      have hheeded : Draw.HandsNothing (_ >>= fun _ => (pure () : Draw σ Unit)) :=
        handsNothing_heed e id c (.ok a) (Draw.stateless_pure ())
      rw [bind_pure] at hheeded
      exact hheeded
  | false =>
    exact handsNothing_heed e id c reply (hrules.close (k := .anywhere) n reply fun _ _ => trivial)

theorem field_hands (f : Field)
    (hhanded : ∀ stored : Option WidgetValue,
      (f.call (stored.getD f.seed)).handed? = some (handedValue f.seed stored)) :
    Draw.Comes (f.draw stage e style) s fun outcome t =>
      s.HandsOver (handedValue f.seed (s.stored? e)) outcome t := by
  have hrules := Draw.rules_stateless stage.backend
  refine Draw.Comes.after (t := s) rfl ?_
  refine Draw.Comes.after (t := s.afterReading e f.seed) rfl ?_
  show Draw.Comes _ _ fun outcome t => (s.afterReading e f.seed).HandsOver _ outcome t
  refine (hrules.setWidth (k := .anywhere) f style).bind_hands fun _ t => ?_
  apply painted_hands
  rw [value_stamped]
  exact hhanded (s.stored? e)

end Widgets

/-- A widget with a state hands over its stored value if that is of its own kind, and its seed
otherwise, except that a text field hands over the empty text in place of a value of another
kind. Only an error can keep it from handing over a value, and no drawing hands over two. -/
theorem drawElement_hands (stage : Stage σ) (e : Element) (style : ComputedStyle) (s : Scene σ)
    (seed : WidgetValue) (hseed : seedOf? e = some seed) :
    Draw.Comes (drawElement stage e style) s fun outcome t =>
      s.HandsOver (handedValue seed (s.stored? e)) outcome t := by
  have hentered : s.HandsNothing (s.entering e style) := ⟨_, rfl, rfl⟩
  rw [drawElement_eq, drawWidget_eq]
  apply Draw.Comes.entering
  refine Draw.Comes.mono ?_ fun outcome t (ht : Scene.HandsOver _ _ outcome t) => hentered.then ht
  rw [seedOf?_eq stage.config e style] at hseed
  cases hmanner : manner stage.config e style with
  | field f =>
    rw [hmanner] at hseed
    obtain rfl : f.seed = seed := Option.some.inj hseed
    exact field_hands stage e style _ f (handed?_of_manner hmanner)
  | _ =>
    rw [hmanner] at hseed
    cases hseed

/-! ### A key shared by a checkbox and a text field -/

def sharingStage : Stage Recorder := ⟨Recorder.backend, {}, .empty⟩

def sharingCheckbox : Element := ⟨"Checkbox", .ofList [("id", "x"), ("label", "a")], []⟩

def sharingField : Element :=
  ⟨"InputText", .ofList [("id", "x"), ("label", "b"), ("value", "hello")], []⟩

/-- The scene before the field in a document where the checkbox stands in front of it. -/
def sharingScene : Scene Recorder :=
  Scene.afterReading ⟨{}, .new 10, ∅, [], []⟩ sharingCheckbox (.bool false)

theorem drawElement_hands_shared :
    seedOf? sharingField = some (.text "hello") ∧
      sharingScene.stored? sharingField = some (.bool false) ∧
        Draw.Comes (drawElement sharingStage sharingField ∅) sharingScene fun outcome t =>
          sharingScene.HandsOver (.text "") outcome t := by
  have hseed : seedOf? sharingField = some (.text "hello") := by decide
  have hstored : sharingScene.stored? sharingField = some (.bool false) := by decide
  have hhands := drawElement_hands sharingStage sharingField ∅ sharingScene _ hseed
  rw [hstored] at hhands
  exact ⟨hseed, hstored, hhands⟩

/-- A text field need not show its seed, though nothing of its own kind is stored: it shows the
empty text when another widget has left a value of another kind under its key. -/
theorem exists_seed_not_handed :
    ∃ (stage : Stage Recorder) (e : Element) (style : ComputedStyle) (s : Scene Recorder)
      (seed : WidgetValue), seedOf? e = some seed ∧
        ¬ Draw.Comes (drawElement stage e style) s fun outcome t =>
          s.HandsOver (ownValue seed (s.stored? e)) outcome t := by
  refine ⟨sharingStage, sharingField, ∅, sharingScene, .text "hello", by decide, ?_⟩
  have hown : ownValue (.text "hello") (sharingScene.stored? sharingField) = .text "hello" := by
    decide
  have hdrawn : (match drawElement sharingStage sharingField ∅ sharingScene with
      | .ok _ t => some (handings t.journal)
      | .error _ _ => none) = some [.text ""] := by decide +kernel
  rintro ⟨outcome, t, hrun, events, hjournal, hhands⟩
  rw [hrun] at hdrawn
  cases outcome with
  | error fault => cases hdrawn
  | ok _ =>
    have hall : handings t.journal = [.text ""] := Option.some.inj hdrawn
    have hevents : events = t.journal := hjournal.symm
    rw [hevents, hall, hown] at hhands
    rcases hhands with hhello | ⟨hnone, _⟩
    · exact absurd hhello (by decide)
    · cases hnone

end FrameUI.Frame
