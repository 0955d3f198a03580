import FrameUI.Proofs.Frame.Endings
import FrameUI.Proofs.Frame.Manners

/-!
# Rules of drawing

Rules for a property of the parts of a drawing: one for each step that a widget takes and each way
in which parts are put together. A part stands in a context, which says what is known of the
replies before it. Fewer rules do for the parts that leave the state of widgets alone, and fewer
still for those to which the user is nothing. Main statement: what follows the rules holds of
every tree whose tags are known (`Draw.Rules.document`).
-/

namespace FrameUI.Frame

open FrameUI.Markup (Element)
open FrameUI.Style (ComputedStyle Rgba)

variable {σ α β : Type}

namespace Draw

/-- What is known where a part stands: a proposition that is live as long as nothing that the
backend has reported makes the part write to the store, and the errors that have been met. -/
structure Context where
  live : Prop
  met : CallError → Prop

namespace Context

/-- The context of a property that does not depend on one. -/
def anywhere : Context := ⟨True, fun _ => True⟩

/-- Behind a part whose outcome has been caught. -/
def caught (k : Context) (outcome : Except CallError α) : Context :=
  { k with met := fun err => k.met err ∨ outcome = .error err }

/-- Behind a call. -/
def answered (k : Context) (c : Call) (reply : Except CallError c.Answer) : Context :=
  { k.caught reply with live := k.live ∧ (Event.called c (replyOf reply)).reported? = none }

end Context

/-- Rules for a property of the parts that tell the host nothing. -/
structure AsideRules (backend : Backend σ) (P : Context → {α : Type} → Draw σ α → Prop) : Prop where
  pure {α : Type} {k : Context} (a : α) : P k (Pure.pure a : Draw σ α)
  log {k : Context} (level : Level) (source message : String) : P k (Draw.log level source message)
  refused {α β : Type} {k : Context} (err : CallError) (next : α → Draw σ β) :
    k.met err → P k (rethrow (.error err) >>= next)
  bind {α β : Type} {k : Context} {body : Draw σ α} {next : α → Draw σ β} :
    P k body → (∀ a, P k (next a)) → P k (body >>= next)
  attempting {α β : Type} {k : Context} {body : Draw σ α} {next : Except CallError α → Draw σ β} :
    P k body → (∀ outcome, P (k.caught outcome) (next outcome)) →
      P k (Draw.attempt body >>= next)
  asking {α : Type} {k : Context} (c : Call) {next : Except CallError c.Answer → Draw σ α} :
    c.isAside = true → (∀ reply, P (k.answered c reply) (next reply)) →
      P k (Draw.attempt (issue backend c) >>= next)

/-- Rules for a property of the parts that leave the state of widgets alone. -/
structure StatelessRules (backend : Backend σ) (P : Context → {α : Type} → Draw σ α → Prop) : Prop
    extends AsideRules backend P where
  notify {k : Context} (e : Element) (event : String) : P k (Draw.notify e event)
  pressing {α : Type} {k : Context} (label : String) {next : Except CallError Bool → Draw σ α} :
    (∀ reply, P (k.answered (.button label) reply) (next reply)) →
      P k (Draw.attempt (issue backend (.button label)) >>= next)

/-- Rules for a property of parts of a drawing with a backend, where tags satisfy `Known`. -/
structure Rules (backend : Backend σ) (Known : String → Prop)
    (P : Context → {α : Type} → Draw σ α → Prop) : Prop where
  still {α : Type} {k : Context} {body : Draw σ α} : Still body → P k body
  refused {α β : Type} {k : Context} (err : CallError) (next : α → Draw σ β) :
    k.met err → P k (rethrow (.error err) >>= next)
  traceFailure {k : Context} (tag : String) (err : CallError) :
    Known tag → k.met err → P k (Draw.traceFailure tag err.message)
  bind {α β : Type} {k : Context} {body : Draw σ α} {next : α → Draw σ β} :
    P k body → (∀ a, P k (next a)) → P k (body >>= next)
  attempting {α β : Type} {k : Context} {body : Draw σ α} {next : Except CallError α → Draw σ β} :
    P k body → (∀ outcome, P (k.caught outcome) (next outcome)) →
      P k (Draw.attempt body >>= next)
  within {α : Type} {k : Context} {body : Draw σ α} (e : Element) :
    P k body → P k (Draw.within e body)
  readState {k : Context} (id : String) (default : WidgetValue) : P k (Draw.readState id default)
  writeState {k : Context} (id : String) (value : WidgetValue) :
    ¬ k.live → P k (Draw.writeState id value)
  asking {α : Type} {k : Context} (c : Call) {next : Except CallError c.Answer → Draw σ α} :
    (∀ reply, P (k.answered c reply) (next reply)) →
      P k (Draw.attempt (issue backend c) >>= next)

theorem Rules.stateless {backend : Backend σ} {Known : String → Prop}
    {P : Context → {α : Type} → Draw σ α → Prop} (rules : Rules backend Known P) :
    StatelessRules backend P where
  pure a := rules.still (still_pure a)
  log _ _ _ := rules.still (still_log _ _ _)
  notify e event := rules.still (still_notify e event)
  refused := rules.refused
  bind := rules.bind
  attempting := rules.attempting
  asking c _ _ h := rules.asking c h
  pressing label _ h := rules.asking (.button label) h

theorem rules_idles (backend : Backend σ) : AsideRules backend fun _ _ body => Idles body where
  pure := idles_pure
  log := idles_log
  refused err next _ := idles_refused err next
  bind h hnext := Idles.bind _ _ h hnext
  attempting h hnext := Idles.bind _ _ h.attempt hnext
  asking c _ haside hnext := Idles.bind _ _ (idles_issue backend c haside).attempt hnext

/-! ### Parts that tell nothing -/

namespace AsideRules

variable {stage : Stage σ} {P : Context → {α : Type} → Draw σ α → Prop} {k : Context}
  (rules : AsideRules stage.backend P)

include rules

theorem rethrow (outcome : Except CallError α) (h : ∀ err, outcome = .error err → k.met err) :
    P k (Draw.rethrow outcome) := by
  cases outcome with
  | ok a => exact rules.pure a
  | error err =>
    have hrefused := rules.refused err (Pure.pure : α → Draw σ α) (h err rfl)
    rw [bind_pure] at hrefused
    exact hrefused

theorem attempt {body : Draw σ α} (h : P k body) : P k (Draw.attempt body) := by
  rw [← bind_pure (Draw.attempt body)]
  exact rules.attempting h fun outcome => rules.pure outcome

theorem issue (c : Call) (haside : c.isAside = true) : P k (Draw.issue stage.backend c) := by
  rw [← attempt_bind_rethrow (Draw.issue stage.backend c)]
  exact rules.asking c haside fun reply => rules.rethrow reply fun _ => Or.inr

theorem tell (c : Call) (haside : c.isAside = true) : P k (Draw.tell stage.backend c) :=
  rules.bind (rules.issue c haside) fun _ => rules.pure ()

theorem pushColor (slot : ColorSlot) (color : Rgba) :
    P k (Frame.pushColor stage slot color) := by
  refine rules.asking _ rfl fun reply => ?_
  cases reply with
  | ok _ => exact rules.pure 1
  | error err => exact rules.bind (rules.log _ _ _) fun _ => rules.pure 0

theorem pushColors (colors : List (ColorSlot × Rgba)) :
    P k (Frame.pushColors stage colors) := by
  induction colors with
  | nil => exact rules.pure 0
  | cons first rest ih =>
    exact rules.bind (rules.pushColor first.1 first.2) fun here =>
      rules.bind ih fun more => rules.pure (here + more)

theorem popColors (n : Nat) : P k (Frame.popColors stage n) := by
  unfold Frame.popColors
  split
  · exact rules.pure ()
  · exact rules.issue _ rfl

theorem setItemWidth (style : ComputedStyle) : P k (Frame.setItemWidth stage style) := by
  unfold Frame.setItemWidth
  split
  · exact rules.issue _ rfl
  · exact rules.pure ()

theorem setWidth (f : Field) (style : ComputedStyle) : P k (f.setWidth stage style) := by
  unfold Field.setWidth
  split
  · exact rules.setItemWidth style
  · exact rules.pure ()

theorem setWindowSize (style : ComputedStyle) : P k (Frame.setWindowSize stage style) := by
  unfold Frame.setWindowSize
  split
  · exact rules.issue _ rfl
  · exact rules.pure ()

theorem drawRun (run : String) : P k (Frame.drawRun stage run) := by
  rw [drawRun_eq]
  split
  · exact rules.pure ()
  · exact rules.tell _ rfl

/-- The end of a widget whose colours are popped last. -/
theorem close (n : Nat) (reply : Except CallError α) (h : ∀ err, reply = .error err → k.met err) :
    P k (do
      Frame.popColors stage n
      let _ ← Draw.rethrow reply) :=
  rules.bind (rules.popColors n) fun _ =>
    rules.bind (rules.rethrow reply h) fun _ => rules.pure ()

/-- A call in colours, if it can be asked and what is done about the reply follows the rules. -/
theorem painted (colors : List (ColorSlot × Rgba)) (popsFirst : Bool) (c : Call)
    {react : Except CallError c.Answer → Draw σ Unit}
    (hasking : ∀ {next : Except CallError c.Answer → Draw σ Unit},
      (∀ reply, P (k.answered c reply) (next reply)) →
        P k (Draw.attempt (Draw.issue stage.backend c) >>= next))
    (hreact : ∀ reply, P (k.answered c reply) (react reply)) :
    P k (Frame.painted stage colors popsFirst c react) := by
  refine rules.bind (rules.pushColors colors) fun pushed => hasking fun reply => ?_
  cases popsFirst with
  | true =>
    refine rules.bind (rules.popColors pushed) fun _ => ?_
    exact rules.bind (rules.rethrow reply fun _ => Or.inr) fun _ => hreact reply
  | false =>
    exact rules.bind (hreact reply) fun _ => rules.close pushed reply fun _ => Or.inr

theorem closeWindow (n : Nat) (opened : Except CallError Bool)
    (h : ∀ err, opened = .error err → k.met err) :
    P k (Frame.closeWindow stage n opened) := by
  refine rules.attempting (rules.popColors n) fun popped => ?_
  refine rules.attempting (rules.issue .endWindow rfl) fun ended => ?_
  refine rules.bind (rules.rethrow opened fun err herr => Or.inl (Or.inl (h err herr))) fun _ => ?_
  refine rules.bind (rules.rethrow popped fun _ herr => Or.inl (Or.inr herr)) fun _ => ?_
  exact rules.rethrow ended fun _ => Or.inr

end AsideRules

theorem StatelessRules.drawButton {stage : Stage σ} {P : Context → {α : Type} → Draw σ α → Prop}
    {k : Context} (rules : StatelessRules stage.backend P) (e : Element) (style : ComputedStyle) :
    P k (Frame.drawButton stage e style) := by
  rw [drawButton_eq]
  refine rules.bind (rules.setItemWidth style) fun _ => ?_
  refine rules.painted _ _ _ (rules.pressing _) fun reply => ?_
  rcases reply with err | _ | _
  · exact rules.pure ()
  · exact rules.pure ()
  · exact rules.notify e "onClick"

/-! ### Widgets -/

namespace Rules

variable {stage : Stage σ} {Known : String → Prop}
  {P : Context → {α : Type} → Draw σ α → Prop} {k : Context}
  (rules : Rules stage.backend Known P) (e : Element) (style : ComputedStyle)

include rules

theorem contain (source report : String) (htag : Known e.tag) {body : Draw σ Unit}
    (h : P k body) : P k (Draw.contain source report e body) := by
  refine rules.attempting h fun outcome => ?_
  cases outcome with
  | ok _ => exact rules.stateless.pure ()
  | error err =>
    exact rules.bind (rules.stateless.log _ _ _) fun _ =>
      rules.traceFailure e.tag err htag (Or.inr rfl)

/-- A reported change is written, which a live part never comes to. -/
theorem heed (id : String) (c : Call) (reply : Except CallError c.Answer) :
    P (k.answered c reply) (Draw.heed e id c reply) := by
  cases hreported : (Event.called c (replyOf reply)).reported? with
  | none =>
    rw [Draw.heed_of_none e id hreported]
    exact rules.stateless.pure ()
  | some v =>
    rw [Draw.heed_of_some e id hreported]
    refine rules.bind (rules.writeState id v ?_) fun _ => rules.stateless.notify e "onChange"
    rintro ⟨_, hnone⟩
    rw [hreported] at hnone
    cases hnone

theorem field (f : Field) : P k (f.draw stage e style) := by
  refine rules.bind (rules.still (still_keyOf e)) fun id => ?_
  refine rules.bind (rules.readState id f.seed) fun stored => ?_
  refine rules.bind (rules.stateless.setWidth f style) fun _ => ?_
  exact rules.stateless.painted _ _ _ (rules.asking _) fun reply => rules.heed e id _ reply

-- The children come after the reply to the call that opens the window, and so does all that
-- follows them, so they are needed in another context than `k`.
theorem drawWindow (htag : Known e.tag) {children : Draw σ Unit} (h : ∀ k, P k children) :
    P k (Frame.drawWindow stage e style children) := by
  rw [drawWindow_eq]
  refine rules.bind (rules.stateless.setWindowSize style) fun _ => ?_
  refine rules.bind (rules.stateless.pushColors _) fun pushed => ?_
  refine rules.asking _ fun opened => ?_
  refine rules.bind ?_ fun _ => rules.stateless.closeWindow pushed opened fun _ => Or.inr
  rcases opened with err | _ | _
  · exact rules.stateless.pure ()
  · exact rules.stateless.pure ()
  · exact rules.contain e _ _ htag (h _)

/-! ### Trees -/

theorem manner (htag : Known e.tag) {children : Draw σ Unit} (h : ∀ k, P k children)
    (m : Manner) : P k (m.draw stage e style children) := by
  have hwithin : ∀ k, P k (Draw.within e children) := fun k => rules.within e (h k)
  cases m with
  | nothing => exact rules.stateless.pure ()
  | warning => exact rules.stateless.log _ _ _
  | inside => exact hwithin k
  | window => exact rules.drawWindow e style htag hwithin
  | button => exact rules.stateless.drawButton e style
  | call c _ haside => exact rules.stateless.tell c haside
  | field f => exact rules.field e style f

theorem drawWidget (htag : Known e.tag) {children : Draw σ Unit} (h : ∀ k, P k children) :
    P k (Frame.drawWidget stage e style children) := by
  rw [drawWidget_eq, Draw.entering, ← bind_assoc]
  refine rules.bind (rules.still (still_entering e style)) fun _ => ?_
  exact rules.bind (rules.stateless.log _ _ _) fun _ => rules.manner e style htag h _

/-- What follows the rules is kept where trees are put together. -/
theorem walk : Walk stage stage fun sites body _ =>
    ∀ around, (∀ x ∈ sites around, Known x.element.tag) → ∀ k, P k body where
  nothing _ _ _ := rules.stateless.pure ()
  run text _ _ _ := rules.stateless.drawRun text
  next hfirst hsecond around hknown k := by
    obtain ⟨hhere, hmore⟩ := List.forall_mem_append.1 hknown
    exact rules.bind (hfirst around hhere k) fun _ => hsecond around hmore k
  element source report e _ _ hchildren around hknown k := by
    rw [e.sites_eq] at hknown
    obtain ⟨htag, hinside⟩ := List.forall_mem_cons.1 hknown
    refine rules.bind (rules.still (still_styleOf stage.sheet e)) fun style => ?_
    exact rules.contain e _ _ htag (rules.drawWidget e style htag (hchildren _ hinside))

/-- What follows the rules holds of every document with known tags. -/
theorem document (k : Context) (root : Element)
    (hknown : ∀ x ∈ root.sites [], Known x.element.tag) : P k (drawDocument stage root) :=
  rules.walk.document root [] hknown k

end Rules
end Draw
end FrameUI.Frame
