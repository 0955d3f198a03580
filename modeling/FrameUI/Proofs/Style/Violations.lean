import FrameUI.Proofs.Style.Items

/-!
# Strict parsing and the first violation

Lenient parsing meets the declarations of a sheet in source order, each with its variables put
in. Main statements: a strict parse has the outcome of the lenient one if no declaration that is
met violates a check, and otherwise fails with the error of the first one that does; in the text of
a sheet the declarations of its rules are met, and no others (`declarationsMet_of_sheetText`).
-/

namespace FrameUI.Style

/-! ### Violations -/

/-- Whether strict validation refuses a declaration: a name that is not listed, or a value that
has to be a colour and is none. -/
def violates (declaration : String × String) : Bool :=
  !isKnownProperty declaration.1 ||
    checkedColors.contains declaration.1 && !(Rgba.ofText declaration.2).isOk

/-- The error for a declaration that is refused: about the name before the colour. -/
def violation (declaration : String × String) : ValidationError :=
  if isKnownProperty declaration.1 then
    ⟨.styleColor, s!"Invalid color format '{declaration.2}' for '{declaration.1}'",
      s!"property={declaration.1} value={declaration.2}"⟩
  else
    ⟨.styleProperty, s!"TSS property '{declaration.1}' is not allowed",
      s!"property={declaration.1}"⟩

namespace Draft

theorem outcome_check_strict (declaration : String × String) :
    Checked.outcome (check .strict declaration.1 declaration.2) =
      if violates declaration then .error (violation declaration) else .ok () := by
  have hstrict : Validator.strict.isStrict = true := rfl
  unfold check violates violation
  rw [hstrict, Checked.outcome_bind]
  cases isKnownProperty declaration.1 with
  | false => rfl
  | true =>
    cases checkedColors.contains declaration.1 with
    | false => rfl
    | true =>
      cases (Rgba.ofText declaration.2).isOk with
      | false => rfl
      | true => rfl

/-- The declaration that a mark stands for, with the variables that it sees put in. -/
def declaration? (d : Draft) : Mark → Option (String × String)
  | .declared name raw => some (name, (substitute d.bindings raw).value)
  | _ => none

/-- The declarations that are met when some marks are taken in leniently. -/
def declarations : Draft → List Mark → List (String × String)
  | _, [] => []
  | d, m :: ms =>
    (d.declaration? m).toList ++
      match Checked.outcome (d.take .lenient m) with
      | .ok next => declarations next ms
      | .error _ => []

theorem outcome_take_strict (d : Draft) (m : Mark) :
    Checked.outcome (d.take .strict m) =
      match (d.declaration? m).toList.find? violates with
      | none => Checked.outcome (d.take .lenient m)
      | some refused => .error (violation refused) := by
  cases m with
  | declared name raw =>
    have hvalue := Checked.outcome_lift (ε := ValidationError) (substitute d.bindings raw)
    have hcheck := outcome_check_strict (name, (substitute d.bindings raw).value)
    rw [outcome_take_declared]
    unfold take
    rw [Checked.outcome_bind_of_ok _ _ _ hvalue, Checked.outcome_bind, hcheck]
    simp only [declaration?, Option.toList_some, List.find?_singleton]
    cases violates (name, (substitute d.bindings raw).value) with
    | false => rfl
    | true => rfl
  | ruleOpened text selector => rfl
  | ruleClosed => rfl
  | scopeOpened => rfl
  | defined name raw => rfl
  | scopeClosed => rfl

theorem outcome_takeAll_strict (d : Draft) (ms : List Mark) :
    Checked.outcome (d.takeAll .strict ms) =
      match (d.declarations ms).find? violates with
      | none => Checked.outcome (d.takeAll .lenient ms)
      | some refused => .error (violation refused) := by
  induction ms generalizing d with
  | nil => rfl
  | cons m ms ih =>
    simp only [takeAll, declarations, Checked.outcome_bind, List.find?_append]
    rw [outcome_take_strict]
    cases (d.declaration? m).toList.find? violates with
    | some refused => rfl
    | none =>
      rw [Option.none_or]
      cases Checked.outcome (d.take .lenient m) with
      | error e => simp only [Except.bind, List.find?_nil]
      | ok next => exact ih next

/-! ### The declarations of a sheet -/

theorem declarations_append_of_ok (d d' : Draft) (ms more : List Mark)
    (h : Checked.outcome (d.takeAll .lenient ms) = .ok d') :
    d.declarations (ms ++ more) = d.declarations ms ++ d'.declarations more := by
  induction ms generalizing d with
  | nil =>
    cases h
    rfl
  | cons m ms ih =>
    rw [List.cons_append, declarations, declarations, List.append_assoc]
    rw [takeAll, Checked.outcome_bind] at h
    cases htake : Checked.outcome (d.take .lenient m) with
    | error e =>
      rw [htake] at h
      cases h
    | ok next =>
      rw [htake] at h
      exact congrArg ((d.declaration? m).toList ++ ·) (ih next h)

theorem declarations_declared (d : Draft) (pairs : List (String × String)) :
    d.declarations (pairs.map fun pair => .declared pair.1 pair.2) =
      substituted d.bindings pairs := by
  induction pairs generalizing d with
  | nil => rfl
  | cons pair pairs ih =>
    rw [List.map_cons, declarations, outcome_take_declared]
    exact congrArg ((pair.1, (substitute d.bindings pair.2).value) :: ·) (ih _)

theorem declarations_ruleMarks (d : Draft) (shown : String) (item : RuleItem) :
    d.declarations (ruleMarks shown item) = substituted d.bindings item.declarations := by
  have hopened : Checked.outcome (d.take .lenient (.ruleOpened shown item.selector)) =
      .ok { d with rule := some ⟨shown, item.selector, ∅⟩ } := rfl
  have hdeclared := outcome_takeAll_declared { d with rule := some ⟨shown, item.selector, ∅⟩ }
    ⟨shown, item.selector, ∅⟩ item.declarations rfl
  rw [ruleMarks, declarations, hopened]
  refine (declarations_append_of_ok _ _ _ _ hdeclared).trans ?_
  rw [declarations_declared]
  exact List.append_nil _

/-- The declarations of a rule with the variables that it sees put in. -/
def declarationsOf (rule : Bindings × RuleItem) : List (String × String) :=
  substituted rule.1 rule.2.declarations

theorem declarations_scope (earlier locals : List (String × String)) (rules : List Rule)
    (items : List ScopeItem) (marks : List Mark) (h : ScopeMarks items marks) :
    declarations ⟨⟨.ofList earlier, rules⟩, some (.ofList locals), none⟩ marks =
      (scopeRules earlier locals items).flatMap declarationsOf := by
  induction h generalizing locals rules with
  | nil => rfl
  | define name raw items marks _ ih =>
    rw [declarations, outcome_take_defined]
    exact ih (locals ++ [(name, raw)]) rules
  | rule shown r items marks _ ih =>
    have hrule := outcome_takeAll_rule
      ⟨⟨.ofList earlier, rules⟩, some (.ofList locals), none⟩ shown r rfl
    rw [declarations_append_of_ok _ _ _ _ hrule, declarations_ruleMarks]
    exact congrArg (substituted _ r.declarations ++ ·) (ih locals _)

theorem declarations_sheet (earlier : List (String × String)) (rules : List Rule)
    (items : List SheetItem) (marks : List Mark) (h : SheetMarks items marks) :
    declarations ⟨⟨.ofList earlier, rules⟩, none, none⟩ marks =
      (sheetRules earlier items).flatMap declarationsOf := by
  induction h generalizing earlier rules with
  | nil => rfl
  | rule shown r items marks _ ih =>
    have hrule := outcome_takeAll_rule ⟨⟨.ofList earlier, rules⟩, none, none⟩ shown r rfl
    rw [declarations_append_of_ok _ _ _ _ hrule, declarations_ruleMarks]
    exact congrArg (substituted _ r.declarations ++ ·) (ih earlier _)
  | scope inner items block marks hblock _ ih =>
    obtain ⟨own, _, hinner⟩ := outcome_takeAll_scope earlier [] rules inner block hblock
    rw [declarations, outcome_take_scopeOpened, sheetRules, List.flatMap_append,
      ← ih _ (rules ++ own), ← declarations_scope earlier [] rules inner block hblock]
    refine (declarations_append_of_ok _ _ _ _ hinner).trans ?_
    rw [declarations, outcome_take_scopeClosed]
    rfl

end Draft

/-! ### Parsing -/

/-- The declarations that lenient parsing meets before it ends or fails. -/
def declarationsMet (source : String) : List (String × String) :=
  Draft.empty.declarations (read source.toList).marks

/-- A strict parse comes to what the lenient one comes to if that meets no violation, and
otherwise is rejected for the first one. A sheet that is accepted strictly is accepted leniently. -/
theorem outcome_parse_first_violation (source : String) :
    (match (declarationsMet source).find? violates with
      | none => (parse .strict source).outcome = (parse .lenient source).outcome
      | some refused => (parse .strict source).outcome = .error (.rejected (violation refused))) ∧
    ∀ sheet, (parse .strict source).outcome = .ok sheet →
      (parse .lenient source).outcome = .ok sheet := by
  have htaken := Draft.outcome_takeAll_strict .empty (read source.toList).marks
  rw [declarationsMet, outcome_parse, outcome_parse, htaken]
  cases (Draft.empty.declarations (read source.toList).marks).find? violates with
  | none => exact ⟨rfl, fun sheet h => h⟩
  | some refused => exact ⟨rfl, fun sheet h => nomatch h⟩

/-- In the text of a sheet every declaration of every rule is met, in source order and with the
variables that the rule sees put in. -/
theorem declarationsMet_of_sheetText (items : List SheetItem) (source : String)
    (h : SheetText items source.toList) :
    declarationsMet source = (sheetRules [] items).flatMap Draft.declarationsOf := by
  obtain ⟨marks, hmarks, hread⟩ := read_of_sheetText items source.toList h
  rw [declarationsMet, hread]
  exact Draft.declarations_sheet [] [] items marks hmarks

/-- The second rule is refused for its colour, which a variable spells, before the third is for
its property. -/
example :
    let source := "scope\x7bink:blue;\x7dA\x7bwidth:1;\x7dB\x7btext-color:ink;\x7dC\x7bdepth:2;\x7d"
    declarationsMet source = [("width", "1"), ("text-color", "blue"), ("depth", "2")] ∧
      (parse .strict source).outcome = .error (.rejected (violation ("text-color", "blue"))) ∧
      (parse .lenient source).outcome.isOk = true := by
  decide +kernel

end FrameUI.Style
