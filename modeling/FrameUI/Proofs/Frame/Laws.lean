import FrameUI.Proofs.Frame.Rules

/-!
# Laws of drawing

A law is a property of parts of a drawing that holds of steady parts, whatever they trace, and is
kept where parts are put together. Main statement: a law holds of whole documents
(`Draw.Law.document`). A part comes with a proposition, which is live as long as nothing that the
backend has reported makes the part write to the store: a law says nothing of writing under a live
proposition.
-/

namespace FrameUI.Frame

open FrameUI.Markup (Element)

variable {σ : Type}

namespace Draw

/-- A property of parts of a drawing under propositions that are live until the backend reports a
change. -/
structure Law (backend : Backend σ) (P : Prop → {α : Type} → Draw σ α → Prop) : Prop where
  steady {α : Type} {live : Prop} {body : Draw σ α} : Steady body → P live body
  bind {α β : Type} {live : Prop} {body : Draw σ α} {next : α → Draw σ β} :
    P live body → (∀ a, P live (next a)) → P live (body >>= next)
  attempt {α : Type} {live : Prop} {body : Draw σ α} : P live body → P live (Draw.attempt body)
  within {α : Type} {live : Prop} {body : Draw σ α} (e : Element) :
    P live body → P live (Draw.within e body)
  readState {live : Prop} (id : String) (default : WidgetValue) : P live (Draw.readState id default)
  writeState {live : Prop} (id : String) (value : WidgetValue) :
    ¬ live → P live (Draw.writeState id value)
  /-- A call is issued, and what follows is live if the reply tells of no change. -/
  asking {α : Type} {live : Prop} (c : Call) {next : Except CallError c.Answer → Draw σ α} :
    (∀ reply, P (live ∧ (Event.called c (replyOf reply)).reported? = none) (next reply)) →
      P live (Draw.attempt (issue backend c) >>= next)

namespace Law

variable {backend : Backend σ} {P : Prop → {α : Type} → Draw σ α → Prop}

/-- A law follows the rules, whatever the tags and the errors that have been met. -/
theorem rules (law : Law backend P) :
    Rules backend (fun _ => True) fun k _ body => P k.live body where
  still h := law.steady h.steady
  refused err next _ := law.steady (steady_refused err next)
  traceFailure _ _ _ _ := law.steady (steady_traceFailure _ _)
  bind := law.bind
  attempting h hnext := law.bind (law.attempt h) hnext
  within := law.within
  readState := law.readState
  writeState := law.writeState
  asking c _ h := law.asking c h

/-- A law holds of every document. -/
theorem document {stage : Stage σ} (law : Law stage.backend P) (live : Prop) (root : Element) :
    P live (drawDocument stage root) :=
  law.rules.document ⟨live, fun _ => False⟩ root fun _ _ => trivial

end Law
end Draw
end FrameUI.Frame
