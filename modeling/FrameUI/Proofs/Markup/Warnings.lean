import FrameUI.Proofs.Markup.Assembling

/-!
# Strict parsing and the first warning

A strict validator stops at the first check that fails, where a lenient one writes a warning and
goes on. Main statement: a strict parse has the outcome of the lenient one if that writes no
warning, and otherwise fails with the code and the detail of the first warning.
-/

namespace FrameUI

/-! ### Failed checks -/

/-- The record by which a lenient validator notes a failed check. -/
def ValidationError.warning (e : ValidationError) : Record :=
  ⟨.warn, Validator.source, s!"[{e.code.name}] {e.detail}"⟩

/-- The warnings of validators among some records. -/
def validationWarnings (records : List Record) : List Record :=
  records.filter fun r => r.level == .warn && r.source == Validator.source

theorem validationWarnings_map_warning (failed : List ValidationError) :
    validationWarnings (failed.map ValidationError.warning) =
      failed.map ValidationError.warning := by
  apply List.filter_eq_self.mpr
  intro r hr
  obtain ⟨e, _, rfl⟩ := List.mem_map.mp hr
  simp [ValidationError.warning]

/-- The outcome that is left of an answer when some checks fail on the way to it. -/
def stoppedAt {α : Type} (failed : List ValidationError) (a : α) : Except ValidationError α :=
  match failed with
  | [] => .ok a
  | e :: _ => .error e

/-- How a computation goes whose checks are made by a validator: what it comes to, and the
checks that fail on the way, in order. -/
structure Checks {α : Type} (run : Validator → Checked ValidationError α) (a : α)
    (failed : List ValidationError) : Prop where
  lenient : Checked.outcome (run .lenient) = .ok a
  warned : Checked.records (run .lenient) = failed.map ValidationError.warning
  strict : Checked.outcome (run .strict) = stoppedAt failed a

namespace Checks

variable {α β : Type}

theorem pure (a : α) : Checks (fun _ => Pure.pure a) a [] := ⟨rfl, rfl, rfl⟩

theorem bind {run : Validator → Checked ValidationError α} {a : α} {b : β}
    {f : α → Validator → Checked ValidationError β} {first more : List ValidationError}
    (hrun : Checks run a first) (hf : Checks (f a) b more) :
    Checks (fun v => run v >>= fun x => f x v) b (first ++ more) where
  lenient := by
    rw [Checked.outcome_bind_of_ok _ _ a hrun.lenient]
    exact hf.lenient
  warned := by
    rw [Checked.records_bind_of_ok _ _ a hrun.lenient, hrun.warned, hf.warned,
      List.map_append]
  strict := by
    rw [Checked.outcome_bind, hrun.strict]
    cases first with
    | nil => exact hf.strict
    | cons e first => rfl

theorem judge (passed : Bool) (code : ValidationCode) (detail context : String) :
    Checks (fun v => v.judge passed code detail context) ()
      (if passed then [] else [⟨code, detail, context⟩]) := by
  cases passed with
  | true => exact ⟨rfl, rfl, rfl⟩
  | false => exact ⟨rfl, rfl, rfl⟩

theorem tag (name : String) :
    ∃ failed, Checks (fun v => v.tag name) (Markup.Tag.ofName name) failed :=
  ⟨_, (judge _ _ _ _).bind (pure _)⟩

theorem attributeName (tag name : String) :
    ∃ failed, Checks (fun v => v.attributeName tag name) (isAllowedAttribute tag name) failed :=
  ⟨_, (judge _ _ _ _).bind (pure _)⟩

theorem attributeValue (name value : String) :
    ∃ failed, Checks (fun v => v.attributeValue name value) () failed := by
  unfold Validator.attributeValue
  cases expectedValue? name value with
  | none => exact ⟨_, pure ()⟩
  | some expected => exact ⟨_, judge expected.1 _ _ _⟩

theorem text (run : String) : ∃ failed, Checks (fun v => v.text run) () failed :=
  ⟨_, judge _ _ _ _⟩

end Checks

/-! ### Assembling trees -/

namespace Markup

namespace Assembly

/-- Every event is taken in after some checks, and grows the tree when none stops it. -/
theorem checks_take (a : Assembly) (event : Event) :
    ∃ failed, Checks (fun v => a.take v event) (a.grow event) failed := by
  cases event with
  | opened name =>
    obtain ⟨failed, htag⟩ := Checks.tag name
    exact ⟨_, htag.bind (.pure _)⟩
  | given name raw =>
    simp only [take, grow]
    cases a.pending with
    | nil => exact ⟨_, .pure a⟩
    | cons e outer =>
      obtain ⟨unlisted, hname⟩ := Checks.attributeName e.tag name
      obtain ⟨misfit, hvalue⟩ := Checks.attributeValue name raw
      exact ⟨_, hname.bind (hvalue.bind (.pure _))⟩
  | run raw =>
    obtain ⟨failed, htext⟩ := Checks.text raw
    simp only [take, grow]
    cases (Text.trim raw.toList).isEmpty with
    | true => exact ⟨_, htext.bind (.pure a)⟩
    | false => exact ⟨_, htext.bind (.pure _)⟩
  | closed => exact ⟨_, .pure a.close⟩

theorem checks_takeAll (a : Assembly) (events : List Event) :
    ∃ failed, Checks (fun v => a.takeAll v events) (events.foldl grow a) failed := by
  induction events generalizing a with
  | nil => exact ⟨_, .pure a⟩
  | cons event events ih =>
    obtain ⟨first, hevent⟩ := checks_take a event
    obtain ⟨more, hevents⟩ := ih (a.grow event)
    simp only [takeAll, List.foldl_cons]
    exact ⟨_, hevent.bind (f := fun next v => next.takeAll v events) hevents⟩

end Assembly

/-! ### Parsing -/

theorem outcome_parse (v : Validator) (source : String) :
    (parse v source).outcome =
      ((Checked.outcome (Assembly.empty.takeAll v
        (readFrom .start (Text.trim source.toList)).events)).mapError
          DocumentError.rejected).bind fun assembly =>
            match (readFrom .start (Text.trim source.toList)).failure with
            | some f => .error (.malformed f.cause (.ofSuffix (Text.trim source.toList) f.rest))
            | none => .ok (assembly.root.getD default) := by
  unfold parse
  rw [Checked.outcome_bind, Checked.outcome_mapError]
  cases (readFrom .start (Text.trim source.toList)).failure with
  | some f => rfl
  | none => rfl

theorem records_parse (v : Validator) (source : String) :
    (parse v source).records = Checked.records (Assembly.empty.takeAll v
      (readFrom .start (Text.trim source.toList)).events) := by
  unfold parse
  rw [Checked.records_bind, Checked.records_mapError, Checked.outcome_mapError]
  cases Checked.outcome (Assembly.empty.takeAll v
      (readFrom .start (Text.trim source.toList)).events) with
  | error e => exact List.append_nil _
  | ok assembly =>
    cases (readFrom .start (Text.trim source.toList)).failure with
    | some f => exact List.append_nil _
    | none => exact List.append_nil _

/-- A strict parse comes to what the lenient one comes to if that writes no warning, and
otherwise is rejected for the reason of the first warning. -/
theorem outcome_parse_strict (source : String) :
    match validationWarnings (parse .lenient source).records with
    | [] => (parse .strict source).outcome = (parse .lenient source).outcome
    | w :: _ => ∃ e : ValidationError,
        (parse .strict source).outcome = .error (.rejected e) ∧ e.warning = w := by
  obtain ⟨failed, hchecks⟩ := Assembly.checks_takeAll Assembly.empty
    (readFrom .start (Text.trim source.toList)).events
  have hwarnings : validationWarnings (parse .lenient source).records =
      failed.map ValidationError.warning := by
    rw [records_parse, hchecks.warned, validationWarnings_map_warning]
  rw [hwarnings, outcome_parse, hchecks.strict]
  cases failed with
  | nil =>
    rw [outcome_parse, hchecks.lenient]
    rfl
  | cons e failed => exact ⟨e, rfl, rfl⟩

end Markup
end FrameUI
