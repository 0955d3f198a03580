import FrameUI.Validation

/-!
# Outcomes of checked computations

What a checked computation comes to once its log records are left aside. The outcome of a
sequence is the outcome of its parts, and a lenient validator never stops one.
-/

namespace FrameUI

namespace Checked

variable {ε ε' α β : Type}

theorem eq_ok_of_toOption (x : Except ε α) (a : α) (h : x.toOption = some a) : x = .ok a := by
  cases x with
  | ok b => exact congrArg Except.ok (Option.some.inj h)
  | error e => cases h

theorem outcome_lift (x : Logged α) :
    outcome (ExceptT.lift x : Checked ε α) = .ok x.value := rfl

theorem outcome_bind (x : Checked ε α) (f : α → Checked ε β) :
    outcome (x >>= f) = (outcome x).bind fun a => outcome (f a) := by
  show (ExceptT.bindCont f (ExceptT.run x).value).value = _
  have hx : (ExceptT.run x).value = outcome x := rfl
  rw [hx]
  cases outcome x with
  | ok a => rfl
  | error e => rfl

theorem outcome_bind_of_ok (x : Checked ε α) (f : α → Checked ε β) (a : α)
    (h : outcome x = .ok a) : outcome (x >>= f) = outcome (f a) := by
  rw [outcome_bind, h]
  rfl

theorem exists_of_outcome_bind {x : Checked ε α} {f : α → Checked ε β} {b : β}
    (h : outcome (x >>= f) = .ok b) : ∃ a, outcome x = .ok a ∧ outcome (f a) = .ok b := by
  rw [outcome_bind] at h
  cases hx : outcome x with
  | ok a =>
    rw [hx] at h
    exact ⟨a, rfl, h⟩
  | error e =>
    rw [hx] at h
    cases h

theorem outcome_mapError (f : ε → ε') (x : Checked ε α) :
    outcome (mapError f x) = (outcome x).mapError f := rfl

theorem records_lift (x : Logged α) :
    records (ExceptT.lift x : Checked ε α) = x.records := List.append_nil x.records

theorem records_bind (x : Checked ε α) (f : α → Checked ε β) :
    records (x >>= f) = records x ++
      match outcome x with
      | .ok a => records (f a)
      | .error _ => [] := by
  show (ExceptT.run x).records ++ (ExceptT.bindCont f (ExceptT.run x).value).records = _
  have hx : (ExceptT.run x).value = outcome x := rfl
  rw [hx]
  cases outcome x with
  | ok a => rfl
  | error e => rfl

theorem records_bind_of_ok (x : Checked ε α) (f : α → Checked ε β) (a : α)
    (h : outcome x = .ok a) : records (x >>= f) = records x ++ records (f a) := by
  rw [records_bind, h]

theorem records_mapError (f : ε → ε') (x : Checked ε α) :
    records (mapError f x) = records x := List.append_nil (records x)

end Checked

namespace Validator

theorem outcome_judge_lenient (passed : Bool) (code : ValidationCode)
    (detail context : String) :
    Checked.outcome (lenient.judge passed code detail context) = .ok () := by
  unfold judge
  split
  · rfl
  · rfl

theorem outcome_tag_lenient (name : String) :
    Checked.outcome (lenient.tag name) = .ok (.ofName name) := by
  unfold tag
  rw [Checked.outcome_bind_of_ok _ _ () (outcome_judge_lenient _ _ _ _)]
  rfl

theorem outcome_attributeName_lenient (tag name : String) :
    Checked.outcome (lenient.attributeName tag name) = .ok (isAllowedAttribute tag name) := by
  unfold attributeName
  rw [Checked.outcome_bind_of_ok _ _ () (outcome_judge_lenient _ _ _ _)]
  rfl

theorem outcome_attributeValue_lenient (name value : String) :
    Checked.outcome (lenient.attributeValue name value) = .ok () := by
  unfold attributeValue
  split
  · rfl
  · exact outcome_judge_lenient _ _ _ _

theorem outcome_text_lenient (run : String) :
    Checked.outcome (lenient.text run) = .ok () :=
  outcome_judge_lenient _ _ _ _

end Validator
end FrameUI
