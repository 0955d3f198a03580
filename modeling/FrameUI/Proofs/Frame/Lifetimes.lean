import FrameUI.Proofs.Frame.Visiting
import Mathlib.Data.List.Induction

/-!
# The life of a widget's state

Under one key of the store a journal shows when widgets ran, what they handed to the backend, and
what was reported as changed. The life of the entry is the part of this since the entry was
created: it ends when the state is cleared, and at the end of a frame when no widget has run under
the key for longer than the grace period. The value of the entry is the last report in its life,
or else the seed of the widget that began it. Main statement: what a visit to a widget does to the
store agrees with what it adds to the life (`Visits.follows`).
-/

namespace FrameUI.Frame

open FrameUI.Markup (Element)

variable {σ : Type}

/-! ### Lives -/

/-- What happens under one key. -/
inductive Occurrence where
  | ran (seed : WidgetValue) (frame : Nat)
  | asked (value : WidgetValue)
  | reported (value : WidgetValue)
  | ended (frame : Nat)
  | cleared
deriving DecidableEq, Repr

namespace Occurrence

def seed? : Occurrence → Option WidgetValue
  | ran seed _ => some seed
  | _ => none

def frame? : Occurrence → Option Nat
  | ran _ frame => some frame
  | _ => none

def report? : Occurrence → Option WidgetValue
  | reported value => some value
  | _ => none

end Occurrence

/-- The last frame in which a widget ran. -/
def lastRun? (life : List Occurrence) : Option Nat := (life.filterMap Occurrence.frame?).getLast?

/-- The value last reported as changed, or else the seed of the first widget that ran. -/
def valueIn? (life : List Occurrence) : Option WidgetValue :=
  (life.filterMap Occurrence.report?).getLast?.or (life.filterMap Occurrence.seed?).head?

/-- Whether at the end of a frame the last run lies further back than the grace period. -/
def outlived (grace frame : Nat) (life : List Occurrence) : Bool :=
  (lastRun? life).any fun last => decide (last + grace < frame)

def live (grace : Nat) (life : List Occurrence) : Occurrence → List Occurrence
  | .cleared => []
  | .ended frame => if outlived grace frame life then [] else life
  | o => life ++ [o]

/-- The life of an entry after all that has happened under its key. -/
def lifeAfter (grace : Nat) (seen : List Occurrence) : List Occurrence :=
  seen.foldl (live grace) []

theorem lifeAfter_concat (grace : Nat) (seen : List Occurrence) (o : Occurrence) :
    lifeAfter grace (seen ++ [o]) = live grace (lifeAfter grace seen) o :=
  List.foldl_append

theorem mem_live (grace : Nat) (life : List Occurrence) (first o : Occurrence)
    (h : o ∈ live grace life first) : o ∈ life ∨ o = first := by
  cases first with
  | cleared => exact absurd h List.not_mem_nil
  | ended frame =>
    rw [live] at h
    split at h
    · exact absurd h List.not_mem_nil
    · exact Or.inl h
  | _ => exact (List.mem_append.1 h).imp_right List.mem_singleton.1

theorem mem_of_mem_lifeAfter (grace : Nat) (seen : List Occurrence) (o : Occurrence)
    (h : o ∈ lifeAfter grace seen) : o ∈ seen := by
  induction seen using List.reverseRecOn with
  | nil => exact h
  | append_singleton seen last ih =>
    rw [lifeAfter_concat] at h
    rcases mem_live grace _ last o h with hold | rfl
    · exact List.mem_append_left _ (ih hold)
    · exact List.mem_concat_self

theorem mem_of_valueIn? (life : List Occurrence) (v : WidgetValue) (h : valueIn? life = some v) :
    .reported v ∈ life ∨ ∃ frame, .ran v frame ∈ life := by
  rw [valueIn?, Option.or_eq_some_iff] at h
  rcases h with hreport | ⟨_, hseed⟩
  · obtain ⟨o, ho, hv⟩ := List.mem_filterMap.1 (List.mem_of_getLast? hreport)
    cases o with
    | reported w =>
      obtain rfl : w = v := Option.some.inj hv
      exact Or.inl ho
    | _ => cases hv
  · obtain ⟨o, ho, hv⟩ := List.mem_filterMap.1 (List.mem_of_head? hseed)
    cases o with
    | ran seed frame =>
      obtain rfl : seed = v := Option.some.inj hv
      exact Or.inr ⟨frame, ho⟩
    | _ => cases hv

/-! ### What is added to a life -/

theorem lastRun?_ran (life : List Occurrence) (seed : WidgetValue) (frame : Nat) :
    lastRun? (life ++ [.ran seed frame]) = some frame := by
  simp [lastRun?, Occurrence.frame?]

theorem lastRun?_concat (life : List Occurrence) (o : Occurrence) (h : o.frame? = none) :
    lastRun? (life ++ [o]) = lastRun? life := by
  simp [lastRun?, h]

theorem isSome_lastRun?_concat (life : List Occurrence) (o : Occurrence)
    (h : (lastRun? life).isSome) : (lastRun? (life ++ [o])).isSome := by
  rw [lastRun?, List.filterMap_append, List.getLast?_append, Option.isSome_or]
  exact Bool.or_eq_true_iff.2 (Or.inr h)

theorem lastRun?_of_lifeAfter (grace : Nat) (seen : List Occurrence) (frame : Nat)
    (h : lastRun? (lifeAfter grace seen) = some frame) : lastRun? seen = some frame := by
  induction seen using List.reverseRecOn with
  | nil => exact h
  | append_singleton seen o ih =>
    rw [lifeAfter_concat] at h
    cases o with
    | ran seed last =>
      have hlast := (lastRun?_ran (lifeAfter grace seen) seed last).symm.trans h
      exact (lastRun?_ran seen seed last).trans hlast
    | ended last =>
      rw [live] at h
      split at h
      · cases h
      · exact (lastRun?_concat _ _ rfl).trans (ih h)
    | cleared => cases h
    | _ =>
      have hlast := (lastRun?_concat (lifeAfter grace seen) _ rfl).symm.trans h
      exact (lastRun?_concat seen _ rfl).trans (ih hlast)

theorem valueIn?_ran (life : List Occurrence) (v seed : WidgetValue) (frame : Nat)
    (h : valueIn? life = some v) : valueIn? (life ++ [.ran seed frame]) = some v := by
  rw [valueIn?, Option.or_eq_some_iff] at h
  simp only [valueIn?, List.filterMap_append, Option.or_eq_some_iff]
  rcases h with hreport | ⟨hnone, hseed⟩
  · exact Or.inl (by simpa [Occurrence.report?] using hreport)
  · refine Or.inr ⟨by simpa [Occurrence.report?] using hnone, ?_⟩
    rw [List.head?_append, hseed]
    rfl

theorem valueIn?_asked (life : List Occurrence) (v : WidgetValue) :
    valueIn? (life ++ [.asked v]) = valueIn? life := by
  simp [valueIn?, Occurrence.report?, Occurrence.seed?]

theorem valueIn?_reported (life : List Occurrence) (v : WidgetValue) :
    valueIn? (life ++ [.reported v]) = some v := by
  simp [valueIn?, Occurrence.report?]

/-! ### Watching a key -/

/-- Someone who watches a key: the number of the frame, whether the element under way is a widget
of the key, and what has been seen. -/
structure Watch where
  frame : Nat
  inside : Bool
  seen : List Occurrence

namespace Watch

def enter (w : Watch) : Option WidgetValue → Watch
  | some seed => { w with inside := true, seen := w.seen ++ [.ran seed w.frame] }
  | none => { w with inside := false }

def note (w : Watch) (ev : Event) (handed : Option WidgetValue) : Watch :=
  if w.inside then
    { w with seen := w.seen ++ (handed.map .asked).toList ++ (ev.reported?.map .reported).toList }
  else w

theorem note_asked (w : Watch) (ev : Event) (v : WidgetValue) (hinside : w.inside = true)
    (hnone : ev.reported? = none) :
    w.note ev (some v) = { w with seen := w.seen ++ [.asked v] } := by
  rw [note, hnone, if_pos hinside]
  simp

theorem note_reported (w : Watch) (ev : Event) (v u : WidgetValue) (hinside : w.inside = true)
    (hreported : ev.reported? = some u) :
    w.note ev (some v) = { w with seen := w.seen ++ [.asked v] ++ [.reported u] } := by
  rw [note, hreported, if_pos hinside]
  rfl

def see (id : String) (w : Watch) : Event → Watch
  | .entered e ancestors _ => w.enter (if stateKey e ancestors = id then seedOf? e else none)
  | .called c reply => w.note (.called c reply) c.handed?
  | _ => w

def seeAll (id : String) (w : Watch) (events : List Event) : Watch := events.foldl (see id) w

theorem seeAll_append (id : String) (w : Watch) (events more : List Event) :
    w.seeAll id (events ++ more) = (w.seeAll id events).seeAll id more := List.foldl_append

theorem see_aside (id : String) (w : Watch) (ev : Event) (h : ev.isAside = true) :
    w.see id ev = w := by
  cases ev with
  | called c reply =>
    have hhanded : c.handed? = none := by cases c <;> first | rfl | cases h
    have hreported := (Event.called c reply).reported?_of_isAside h
    rw [see, note, hhanded, hreported]
    split
    · simp
    · rfl
  | entered e ancestors style => cases h
  | _ => rfl

theorem seeAll_of_runs (id : String) (w : Watch) (events : List Event) (fs : List Firing)
    (h : Runs events fs) : w.seeAll id events = w := by
  have hsee : ∀ ev ∈ events, w.see id ev = w := by
    intro ev hev
    rcases h.others ev hev with haside | ⟨f, rfl⟩
    · exact see_aside id w ev haside
    · rfl
  clear h
  induction events with
  | nil => rfl
  | cons first events ih =>
    rw [seeAll, List.foldl_cons, hsee first List.mem_cons_self]
    exact ih fun ev hev => hsee ev (List.mem_cons_of_mem _ hev)

theorem seeAll_of_asides (id : String) (w : Watch) (events : List Event) (h : Asides events) :
    w.seeAll id events = w := w.seeAll_of_runs id events [] h.runs

/-- Around one call nothing else is to be seen. -/
theorem seeAll_around (id : String) (w : Watch) (before after : List Event) (ev : Event)
    (fs : List Firing) (hbefore : Asides before) (hafter : Runs after fs) :
    w.seeAll id (before ++ ev :: after) = w.see id ev := by
  rw [seeAll_append, seeAll_of_asides id w before hbefore, seeAll, List.foldl_cons]
  exact (w.see id ev).seeAll_of_runs id after fs hafter

/-- Only the end of a frame and a clearing end a life. -/
theorem isSome_lastRun?_see (id : String) (grace : Nat) (w : Watch) (ev : Event)
    (h : (lastRun? (lifeAfter grace w.seen)).isSome) :
    (lastRun? (lifeAfter grace (w.see id ev).seen)).isSome := by
  have hgrows : ∀ seen o, live grace (lifeAfter grace seen) o = lifeAfter grace seen ++ [o] →
      (lastRun? (lifeAfter grace seen)).isSome →
      (lastRun? (lifeAfter grace (seen ++ [o]))).isSome := by
    intro seen o hlive hseen
    rw [lifeAfter_concat, hlive]
    exact isSome_lastRun?_concat _ o hseen
  cases ev with
  | entered e ancestors style =>
    rw [see]
    split
    · cases seedOf? e with
      | none => exact h
      | some seed => exact hgrows _ _ rfl h
    · exact h
  | called c reply =>
    rw [see, note]
    split
    · cases c.handed? <;> cases (Event.called c reply).reported?
      · simpa using h
      · simpa using hgrows _ _ rfl h
      · simpa using hgrows _ _ rfl h
      · exact hgrows _ _ rfl (hgrows _ _ rfl h)
    · exact h
  | _ => exact h

theorem isSome_lastRun?_seeAll (id : String) (grace : Nat) (w : Watch) (events : List Event)
    (h : (lastRun? (lifeAfter grace w.seen)).isSome) :
    (lastRun? (lifeAfter grace (w.seeAll id events).seen)).isSome := by
  induction events generalizing w with
  | nil => exact h
  | cons first events ih => exact ih _ (w.isSome_lastRun?_see id grace first h)

end Watch

/-! ### The store and what has been seen -/

/-- What the store holds for a key, given the life of the entry. -/
inductive Stored (id : String) (life : List Occurrence) : Option StoreEntry → Prop
  | gone : life = [] → Stored id life none
  | held (v : WidgetValue) (frame : Nat) : valueIn? life = some v → lastRun? life = some frame →
      Stored id life (some ⟨id, v, frame⟩)

/-- Every widget that ran keeps values of one kind. -/
def OneKind (kind : Markup.Tag) (seen : List Occurrence) : Prop :=
  ∀ o ∈ seen, ∀ seed ∈ o.seed?, seed.kind = kind

instance (kind : Markup.Tag) : DecidablePred (OneKind kind) := fun seen =>
  inferInstanceAs (Decidable (∀ o ∈ seen, ∀ seed ∈ o.seed?, seed.kind = kind))

/-- Every widget handed the value in the life of its entry to the backend. -/
def Faithful (grace : Nat) (seen : List Occurrence) : Prop :=
  ∀ before v, before ++ [.asked v] <+: seen → valueIn? (lifeAfter grace before) = some v

/-- The store agrees with what has been seen under a key, and if all widgets of the key are of one
kind, so did every call and every report. -/
structure Follows (id : String) (kind : Markup.Tag) (grace : Nat) (w : Watch) (store : Store) :
    Prop where
  stored : Stored id (lifeAfter grace w.seen) (store.find? id)
  frame : store.frame = w.frame
  patience : store.grace = grace
  reports : OneKind kind w.seen → ∀ v, .reported v ∈ w.seen → v.kind = kind
  asks : OneKind kind w.seen → Faithful grace w.seen

theorem OneKind.of_append {kind : Markup.Tag} {seen more : List Occurrence}
    (h : OneKind kind (seen ++ more)) : OneKind kind seen :=
  fun o ho => h o (List.mem_append_left _ ho)

theorem Faithful.concat {grace : Nat} {seen : List Occurrence} {o : Occurrence}
    (h : Faithful grace seen)
    (ho : ∀ v, o = .asked v → valueIn? (lifeAfter grace seen) = some v) :
    Faithful grace (seen ++ [o]) := by
  intro before v hprefix
  rcases List.prefix_concat_iff.1 hprefix with heq | hprefix
  · obtain ⟨rfl, hlast⟩ := List.append_inj' heq rfl
    exact ho v (List.cons.inj hlast).1.symm
  · exact h before v hprefix

theorem kind_of_valueIn? {grace : Nat} {kind : Markup.Tag} {seen : List Occurrence}
    {v : WidgetValue} (hkind : OneKind kind seen)
    (hreports : ∀ v, .reported v ∈ seen → v.kind = kind)
    (h : valueIn? (lifeAfter grace seen) = some v) : v.kind = kind := by
  rcases mem_of_valueIn? _ v h with hreported | ⟨frame, hran⟩
  · exact hreports v (mem_of_mem_lifeAfter grace seen _ hreported)
  · exact hkind _ (mem_of_mem_lifeAfter grace seen _ hran) v rfl

theorem lastRun?_enter (grace : Nat) (w : Watch) (seed : WidgetValue) :
    lastRun? (lifeAfter grace (w.enter (some seed)).seen) = some w.frame :=
  (congrArg lastRun? (lifeAfter_concat _ _ _)).trans (lastRun?_ran _ _ _)

section Follows

variable {id : String} {kind : Markup.Tag} {grace : Nat} {w : Watch} {store : Store}

/-- A key that nobody touches. -/
theorem Follows.elsewhere (h : Follows id kind grace w store) (store' : Store) (inside : Bool)
    (hfind : store'.find? id = store.find? id) (hframe : store'.frame = store.frame)
    (hgrace : store'.grace = store.grace) :
    Follows id kind grace { w with inside := inside } store' where
  stored := by
    rw [hfind]
    exact h.stored
  frame := hframe.trans h.frame
  patience := hgrace.trans h.patience
  reports := h.reports
  asks := h.asks

theorem stored_read (h : Follows id kind grace w store) (seed : WidgetValue) :
    ∃ v, (store.stamped id seed) = ⟨id, v, store.frame⟩ ∧
      valueIn? (lifeAfter grace w.seen ++ [.ran seed w.frame]) = some v := by
  have hstored := h.stored
  generalize hentry : store.find? id = entry at hstored
  cases hstored with
  | gone hnil =>
    refine ⟨seed, ?_, ?_⟩
    · have hnone : store.entries.find? id = none := hentry
      simp only [Store.stamped, hnone]
    · rw [hnil]
      rfl
  | held v frame hvalue hrun =>
    refine ⟨v, ?_, valueIn?_ran _ v seed _ hvalue⟩
    have hsome : store.entries.find? id = some ⟨id, v, frame⟩ := hentry
    simp only [Store.stamped, hsome]

theorem Follows.see (h : Follows id kind grace w store) (o : Occurrence) (inside : Bool)
    (store' : Store) (hstored : Stored id (live grace (lifeAfter grace w.seen) o) (store'.find? id))
    (hframe : store'.frame = store.frame) (hgrace : store'.grace = store.grace)
    (hreport : OneKind kind w.seen → ∀ v, o = .reported v → v.kind = kind)
    (hask : OneKind kind w.seen → ∀ v, o = .asked v →
      valueIn? (lifeAfter grace w.seen) = some v) :
    Follows id kind grace ⟨w.frame, inside, w.seen ++ [o]⟩ store' := by
  constructor
  · rw [lifeAfter_concat]
    exact hstored
  · exact hframe.trans h.frame
  · exact hgrace.trans h.patience
  · intro hone v hv
    rcases List.mem_append.1 hv with hv | hv
    · exact h.reports hone.of_append v hv
    · exact hreport hone.of_append v (List.mem_singleton.1 hv).symm
  · exact fun hone => (h.asks hone.of_append).concat (hask hone.of_append)

theorem Follows.ran (h : Follows id kind grace w store) (seed : WidgetValue) :
    Follows id kind grace (w.enter (some seed)) (store.read id seed).2 := by
  obtain ⟨v, hstamped, hvalue⟩ := stored_read h seed
  refine h.see (.ran seed w.frame) true (store.read id seed).2 ?_ rfl rfl (fun _ _ => nofun)
    (fun _ _ => nofun)
  rw [Store.find?_read, if_pos rfl, hstamped, h.frame]
  exact .held v w.frame hvalue (lastRun?_ran _ _ _)

theorem Follows.valueIn?_ran (h : Follows id kind grace w store) (seed : WidgetValue) :
    valueIn? (lifeAfter grace (w.enter (some seed)).seen) = some (store.read id seed).1 := by
  obtain ⟨v, hstamped, hvalue⟩ := stored_read h seed
  have hread : (store.read id seed).1 = v := by
    rw [Store.read, hstamped]
  rw [hread]
  exact (congrArg valueIn? (lifeAfter_concat _ _ _)).trans hvalue

theorem Follows.asked (h : Follows id kind grace w store)
    (hrun : lastRun? (lifeAfter grace w.seen) = some w.frame) (v : WidgetValue)
    (hv : OneKind kind w.seen → valueIn? (lifeAfter grace w.seen) = some v) :
    Follows id kind grace { w with seen := w.seen ++ [.asked v] } store := by
  refine h.see (.asked v) w.inside store ?_ rfl rfl (fun _ _ => nofun) ?_
  · have hstored := h.stored
    generalize store.find? id = entry at hstored
    cases hstored with
    | gone hnil =>
      rw [hnil] at hrun
      cases hrun
    | held u frame hvalue hlast =>
      exact .held u frame ((valueIn?_asked _ v).trans hvalue)
        ((lastRun?_concat _ _ rfl).trans hlast)
  · intro hone u hu
    cases hu
    exact hv hone

theorem Follows.reported (h : Follows id kind grace w store)
    (hrun : lastRun? (lifeAfter grace w.seen) = some w.frame) (v : WidgetValue)
    (hv : OneKind kind w.seen → v.kind = kind) :
    Follows id kind grace { w with seen := w.seen ++ [.reported v] } (store.write id v) := by
  refine h.see (.reported v) w.inside (store.write id v) ?_ rfl rfl ?_ (fun _ _ => nofun)
  · have hwritten : (store.write id v).find? id = some { store.stamped id v with value := v } :=
      (store.find?_edit id id v fun _ => v).trans (if_pos rfl)
    obtain ⟨u, hstamped, _⟩ := stored_read h v
    rw [hwritten, hstamped, h.frame]
    exact .held v w.frame (valueIn?_reported _ v) ((lastRun?_concat _ _ rfl).trans hrun)
  · intro hone u hu
    cases hu
    exact hv hone

theorem Follows.askedBy (h : Follows id kind grace w store) (seed v : WidgetValue)
    (hsame : (store.read id seed).1.kind = seed.kind → v = (store.read id seed).1) :
    Follows id kind grace
      { w.enter (some seed) with seen := (w.enter (some seed)).seen ++ [.asked v] }
      (store.read id seed).2 := by
  have hread := h.ran seed
  have hvalue := h.valueIn?_ran seed
  refine hread.asked (lastRun?_enter grace w seed) v fun hone => ?_
  have hstored := kind_of_valueIn? hone (hread.reports hone) hvalue
  have hseed := hone _ (List.mem_append_right _ List.mem_cons_self) seed rfl
  rw [hsame (hstored.trans hseed.symm)]
  exact hvalue

theorem Follows.reportedBy (h : Follows id kind grace w store) (seed v u : WidgetValue)
    (hsame : (store.read id seed).1.kind = seed.kind → v = (store.read id seed).1)
    (hkind : u.kind = seed.kind) :
    Follows id kind grace
      { w.enter (some seed) with
        seen := (w.enter (some seed)).seen ++ [.asked v] ++ [.reported u] }
      ((store.read id seed).2.write id u) := by
  refine (h.askedBy seed v hsame).reported ?_ u fun hone => ?_
  · show lastRun? (lifeAfter grace ((w.enter (some seed)).seen ++ [.asked v])) = _
    rw [lifeAfter_concat]
    exact (lastRun?_concat _ _ rfl).trans (lastRun?_enter grace w seed)
  · have hran : Occurrence.ran seed w.frame ∈ (w.enter (some seed)).seen ++ [.asked v] :=
      List.mem_append_left _ (List.mem_append_right _ List.mem_cons_self)
    exact hkind.trans (hone _ hran seed rfl)

theorem Follows.advanced (h : Follows id kind grace w store) :
    Follows id kind grace ⟨w.frame + 1, false, w.seen⟩ store.advance.value where
  stored := h.stored
  frame := congrArg (· + 1) h.frame
  patience := h.patience
  reports := h.reports
  asks := h.asks

theorem Follows.swept (h : Follows id kind grace w store) :
    Follows id kind grace ⟨w.frame, false, w.seen ++ [.ended w.frame]⟩ store.sweep.value := by
  have hsame := store.sweep_value
  refine h.see (.ended w.frame) false _ ?_ (by rw [hsame]) (by rw [hsame]) (fun _ _ => nofun)
    (fun _ _ => nofun)
  rw [store.find?_sweep]
  have hstored := h.stored
  generalize store.find? id = entry at hstored
  cases hstored with
  | gone hnil =>
    rw [hnil]
    exact .gone rfl
  | held v frame hvalue hlast =>
    have hfresh : store.isFresh ⟨id, v, frame⟩ = decide (w.frame - grace ≤ frame) := by
      rw [Store.isFresh, h.frame, h.patience]
    have houtlived : outlived grace w.frame (lifeAfter grace w.seen) =
        decide (frame + grace < w.frame) := by
      rw [outlived, hlast]
      rfl
    -- The store subtracts the grace period, with a floor at zero, and `outlived` adds it.
    rw [live, houtlived, Option.filter_some, hfresh]
    by_cases hstale : frame + grace < w.frame
    · have hdropped : ¬ w.frame - grace ≤ frame := by omega
      simp only [hstale, hdropped, decide_true, decide_false, if_true]
      exact .gone rfl
    · have hkept : w.frame - grace ≤ frame := by omega
      simp only [hstale, hkept, decide_true, decide_false, if_true]
      exact .held v frame hvalue hlast

theorem Follows.cleared (h : Follows id kind grace w store) :
    Follows id kind grace { w with seen := w.seen ++ [.cleared] } store.clear :=
  h.see .cleared w.inside _ (.gone rfl) rfl rfl (fun _ _ => nofun) (fun _ _ => nofun)

end Follows

/-! ### Visits -/

section Visits

variable {id : String} {popsFirst : Bool} {seed : WidgetValue} {e : Element} {s t : Scene σ}

theorem Visits.follows_elsewhere (h : Visits popsFirst seed e s t)
    (hid : stateKey e s.ancestors ≠ id) :
    ∃ events, t.journal = s.journal ++ events ∧ ∀ kind grace w, w.inside = false →
      Follows id kind grace w s.store → Follows id kind grace (w.seeAll id events) t.store := by
  have hread : ∀ kind grace w, Follows id kind grace w s.store →
      Follows id kind grace w (s.afterReading e seed).store := by
    intro kind grace w hfollows
    have hfind := (s.store.find?_read (stateKey e s.ancestors) id seed).trans (if_neg hid)
    exact hfollows.elsewhere _ w.inside hfind rfl rfl
  have hcall : ∀ (c : Call) (reply : Except Fault c.Answer) (w : Watch), w.inside = false →
      w.see id (.called c reply) = w := by
    intro c reply w houtside
    rw [Watch.see, Watch.note, houtside]
    rfl
  cases h with
  | failed events hlater hasides =>
    refine ⟨events, hlater.journal, fun kind grace w houtside hfollows => ?_⟩
    rw [w.seeAll_of_asides id events hasides, hlater.store]
    exact hread kind grace w hfollows
  | kept before after c reply hlater hbefore hafter _ _ =>
    refine ⟨_, hlater.journal, fun kind grace w houtside hfollows => ?_⟩
    rw [w.seeAll_around id before after _ _ hbefore hafter.runs, hcall c reply w houtside,
      hlater.store]
    exact hread kind grace w hfollows
  | changed before after c reply v hstore _ hjournal hbefore hruns _ _ _ =>
    refine ⟨_, hjournal, fun kind grace w houtside hfollows => ?_⟩
    rw [w.seeAll_around id before after _ _ hbefore hruns, hcall c reply w houtside, hstore]
    have hfind := ((s.afterReading e seed).store.find?_edit (stateKey e s.ancestors) id v
      fun _ => v).trans (if_neg hid)
    exact (hread kind grace w hfollows).elsewhere _ w.inside hfind rfl rfl

/-- A visit to a widget of the key: what it does to the store agrees with what is seen, as long as
no pop is refused. -/
theorem Visits.follows (h : Visits popsFirst seed e s t) (hid : stateKey e s.ancestors = id) :
    ∃ events, t.journal = s.journal ++ events ∧ (PopsAccepted events →
      ∀ kind grace w, Follows id kind grace w s.store →
        Follows id kind grace ((w.enter (some seed)).seeAll id events) t.store) := by
  subst hid
  cases h with
  | failed events hlater hasides =>
    refine ⟨events, hlater.journal, fun _ kind grace w hfollows => ?_⟩
    rw [Watch.seeAll_of_asides _ _ events hasides, hlater.store]
    exact hfollows.ran seed
  | kept before after c reply hlater hbefore hafter hhands hlost =>
    refine ⟨_, hlater.journal, fun hpops kind grace w hfollows => ?_⟩
    obtain ⟨v, hhanded, hsame⟩ := hhands
    -- A checkbox may leave a report unwritten, but only if its pop was refused.
    have hnone := reported?_eq_none_of_pops hlost fun _ ev hev =>
      hpops ev (List.mem_append_right _ (List.mem_cons_of_mem _ hev))
    rw [Watch.seeAll_around _ _ before after _ _ hbefore hafter.runs, Watch.see, hhanded,
      Watch.note_asked _ _ v rfl hnone, hlater.store]
    exact hfollows.askedBy seed v hsame
  | changed before after c reply u hstore _ hjournal hbefore hruns hhands hreported hkind =>
    refine ⟨_, hjournal, fun _ kind grace w hfollows => ?_⟩
    obtain ⟨v, hhanded, hsame⟩ := hhands
    rw [Watch.seeAll_around _ _ before after _ _ hbefore hruns, Watch.see, hhanded,
      Watch.note_reported _ _ v u rfl hreported, hstore]
    exact hfollows.reportedBy seed v u hsame hkind

end Visits

end FrameUI.Frame
