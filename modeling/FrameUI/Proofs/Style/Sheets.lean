import FrameUI.Proofs.Outcome
import FrameUI.Proofs.Style.Marks
import Mathlib.Data.List.Forall2

/-!
# Parsing sheets

What a lenient parser makes of the marks of a sheet, and so of its text. Main statement: the
text of a sheet parses to its variables and its rules, each rule with the values that the
variables visible to it give.
-/

namespace FrameUI.Style

/-! ### Taking in marks -/

namespace Draft

theorem outcome_check_lenient (name value : String) :
    Checked.outcome (check .lenient name value) = .ok () := by
  unfold check
  rw [Checked.outcome_bind_of_ok _ _ () (Validator.outcome_judge_lenient _ _ _ _)]
  rfl

theorem outcome_take_declared (d : Draft) (name raw : String) :
    Checked.outcome (d.take .lenient (.declared name raw)) =
      .ok { d with rule := d.rule.map fun r =>
        { r with properties := r.properties.insert name (substitute d.bindings raw).value } } := by
  unfold take
  rw [Checked.outcome_bind_of_ok _ _ _ (Checked.outcome_lift (substitute d.bindings raw)),
    Checked.outcome_bind_of_ok _ _ _ (outcome_check_lenient name _)]
  rfl

theorem outcome_takeAll_cons (v : Validator) (d d' : Draft) (m : Mark) (ms : List Mark)
    (h : Checked.outcome (d.take v m) = .ok d') :
    Checked.outcome (d.takeAll v (m :: ms)) = Checked.outcome (d'.takeAll v ms) :=
  Checked.outcome_bind_of_ok _ _ d' h

theorem outcome_takeAll_append (v : Validator) (d : Draft) (ms more : List Mark) :
    Checked.outcome (d.takeAll v (ms ++ more)) =
      (Checked.outcome (d.takeAll v ms)).bind fun next => Checked.outcome (next.takeAll v more) := by
  induction ms generalizing d with
  | nil => rfl
  | cons m ms ih =>
    rw [List.cons_append, takeAll, takeAll, Checked.outcome_bind, Checked.outcome_bind]
    cases Checked.outcome (d.take v m) with
    | ok next => exact ih next
    | error e => rfl

theorem outcome_takeAll_append_of_ok (v : Validator) (d d' : Draft) (ms more : List Mark)
    (h : Checked.outcome (d.takeAll v ms) = .ok d') :
    Checked.outcome (d.takeAll v (ms ++ more)) = Checked.outcome (d'.takeAll v more) := by
  rw [outcome_takeAll_append, h]
  rfl

/-! ### Rules -/

/-- Declarations with the variables put in. -/
def substituted (vars : Bindings) (pairs : List (String × String)) : List (String × String) :=
  pairs.map fun pair => (pair.1, (substitute vars pair.2).value)

theorem outcome_takeAll_declared (d : Draft) (r : Rule) (pairs : List (String × String))
    (h : d.rule = some r) :
    Checked.outcome (d.takeAll .lenient (pairs.map fun pair => .declared pair.1 pair.2)) =
      .ok { d with rule := some { r with properties :=
        (substituted d.bindings pairs).foldl (fun acc e => acc.insert e.1 e.2) r.properties } } := by
  induction pairs generalizing d r with
  | nil =>
    obtain ⟨sheet, scope, rule⟩ := d
    subst h
    rfl
  | cons pair pairs ih =>
    have htake := outcome_take_declared d pair.1 pair.2
    rw [h] at htake
    rw [List.map_cons, outcome_takeAll_cons _ d _ _ _ htake, ih _ _ rfl]
    rfl

/-- The rule that is parsed where some variables are visible. -/
def parsedRule (vars : Bindings) (shown : String) (item : RuleItem) : Rule :=
  ⟨shown, item.selector, .ofList (substituted vars item.declarations)⟩

theorem means_parsedRule (vars : Bindings) (shown : String) (item : RuleItem) :
    Means vars item (parsedRule vars shown item) where
  selector := rfl
  specificity := rfl
  properties name := by
    rw [parsedRule, Dict.find?_ofList]
    exact Dict.lastOf?_map (fun _ raw => (substitute vars raw).value) name item.declarations

theorem outcome_takeAll_rule (d : Draft) (shown : String) (item : RuleItem)
    (h : d.rule = none) :
    Checked.outcome (d.takeAll .lenient (ruleMarks shown item)) =
      .ok { d with sheet := { d.sheet with
        rules := d.sheet.rules ++ [parsedRule d.bindings shown item] } } := by
  have hopened : Checked.outcome (d.take .lenient (.ruleOpened shown item.selector)) =
      .ok { d with rule := some ⟨shown, item.selector, ∅⟩ } := rfl
  have hdeclared := outcome_takeAll_declared { d with rule := some ⟨shown, item.selector, ∅⟩ }
    ⟨shown, item.selector, ∅⟩ item.declarations rfl
  obtain ⟨sheet, scope, rule⟩ := d
  subst h
  rw [ruleMarks, outcome_takeAll_cons _ _ _ _ _ hopened,
    outcome_takeAll_append_of_ok _ _ _ _ _ hdeclared]
  rfl

/-! ### Blocks and sheets -/

/-- The parsed rules are the meant ones, each under the variables visible to it. -/
abbrev AllMean (items : List (Bindings × RuleItem)) (rules : List Rule) : Prop :=
  List.Forall₂ (fun item r => Means item.1 item.2 r) items rules

theorem outcome_take_scopeOpened (earlier : List (String × String)) (rules : List Rule) :
    Checked.outcome (take .lenient ⟨⟨.ofList earlier, rules⟩, none, none⟩ .scopeOpened) =
      .ok ⟨⟨.ofList earlier, rules⟩, some (.ofList []), none⟩ := rfl

theorem outcome_take_defined (earlier locals : List (String × String)) (rules : List Rule)
    (name raw : String) :
    Checked.outcome (take .lenient ⟨⟨.ofList earlier, rules⟩, some (.ofList locals), none⟩
        (.defined name raw)) =
      .ok ⟨⟨.ofList earlier, rules⟩, some (.ofList (locals ++ [(name, raw)])), none⟩ := by
  rw [← Dict.insert_ofList]
  rfl

theorem outcome_take_scopeClosed (earlier locals : List (String × String)) (rules : List Rule) :
    Checked.outcome (take .lenient ⟨⟨.ofList earlier, rules⟩, some (.ofList locals), none⟩
        .scopeClosed) =
      .ok ⟨⟨.ofList (earlier ++ locals), rules⟩, none, none⟩ := by
  rw [← Dict.merge_ofList earlier]
  rfl

theorem outcome_takeAll_scope (earlier locals : List (String × String)) (rules : List Rule)
    (items : List ScopeItem) (marks : List Mark) (h : ScopeMarks items marks) :
    ∃ more, AllMean (scopeRules earlier locals items) more ∧
      Checked.outcome (takeAll .lenient
        ⟨⟨.ofList earlier, rules⟩, some (.ofList locals), none⟩ marks) =
      .ok ⟨⟨.ofList earlier, rules ++ more⟩,
        some (.ofList (locals ++ scopeVariables items)), none⟩ := by
  induction h generalizing locals rules with
  | nil =>
    refine ⟨[], .nil, ?_⟩
    rw [scopeVariables, List.filterMap_nil, List.append_nil, List.append_nil]
    rfl
  | define name raw items marks _ ih =>
    obtain ⟨more, hmore, hrest⟩ := ih (locals ++ [(name, raw)]) rules
    refine ⟨more, hmore, ?_⟩
    have htake := outcome_take_defined earlier locals rules name raw
    rw [outcome_takeAll_cons _ _ _ _ _ htake, hrest, List.append_assoc]
    rfl
  | rule shown r items marks _ ih =>
    have hrule := outcome_takeAll_rule
      ⟨⟨.ofList earlier, rules⟩, some (.ofList locals), none⟩ shown r rfl
    obtain ⟨more, hmore, hrest⟩ := ih locals (rules ++ [parsedRule _ shown r])
    refine ⟨parsedRule _ shown r :: more, .cons (means_parsedRule _ shown r) hmore, ?_⟩
    rw [outcome_takeAll_append_of_ok _ _ _ _ _ hrule]
    refine hrest.trans ?_
    rw [List.append_assoc]
    rfl

theorem outcome_takeAll_sheet (earlier : List (String × String)) (rules : List Rule)
    (items : List SheetItem) (marks : List Mark) (h : SheetMarks items marks) :
    ∃ more, AllMean (sheetRules earlier items) more ∧
      Checked.outcome (takeAll .lenient ⟨⟨.ofList earlier, rules⟩, none, none⟩ marks) =
      .ok ⟨⟨.ofList (earlier ++ items.flatMap SheetItem.variables), rules ++ more⟩,
        none, none⟩ := by
  induction h generalizing earlier rules with
  | nil =>
    refine ⟨[], .nil, ?_⟩
    rw [List.flatMap_nil, List.append_nil, List.append_nil]
    rfl
  | rule shown r items marks _ ih =>
    have hrule := outcome_takeAll_rule ⟨⟨.ofList earlier, rules⟩, none, none⟩ shown r rfl
    obtain ⟨more, hmore, hrest⟩ := ih earlier (rules ++ [parsedRule _ shown r])
    refine ⟨parsedRule _ shown r :: more, .cons (means_parsedRule _ shown r) hmore, ?_⟩
    rw [outcome_takeAll_append_of_ok _ _ _ _ _ hrule]
    refine hrest.trans ?_
    rw [List.append_assoc]
    rfl
  | scope inner items block marks hblock _ ih =>
    obtain ⟨own, hown, hinner⟩ := outcome_takeAll_scope earlier [] rules inner block hblock
    obtain ⟨more, hmore, hrest⟩ := ih (earlier ++ scopeVariables inner) (rules ++ own)
    have hopened := outcome_take_scopeOpened earlier rules
    have hclosed := outcome_take_scopeClosed earlier ([] ++ scopeVariables inner) (rules ++ own)
    refine ⟨own ++ more, List.rel_append hown hmore, ?_⟩
    rw [outcome_takeAll_cons _ _ _ _ _ hopened, outcome_takeAll_append_of_ok _ _ _ _ _ hinner,
      outcome_takeAll_cons _ _ _ _ _ hclosed]
    refine hrest.trans ?_
    rw [List.append_assoc, List.append_assoc]
    rfl

end Draft

/-! ### Parsing -/

/-- The text of a sheet parses to what the sheet stands for: every variable has the last value
declared for it, and the rules are those of the sheet in source order. -/
theorem parse_of_sheetText (items : List SheetItem) (source : String)
    (h : SheetText items source.toList) :
    ∃ sheet, (parse .lenient source).outcome = .ok sheet ∧
      (∀ name, sheet.definitions.find? name =
        Dict.lastOf? name (items.flatMap SheetItem.variables)) ∧
      List.Forall₂ (fun item r => Means item.1 item.2 r) (sheetRules [] items) sheet.rules := by
  obtain ⟨marks, hmarks, hread⟩ := read_of_sheetText items source.toList h
  obtain ⟨rules, hrules, htaken⟩ := Draft.outcome_takeAll_sheet [] [] items marks hmarks
  refine ⟨⟨.ofList (items.flatMap SheetItem.variables), rules⟩, ?_, ?_, hrules⟩
  · have hdraft : Checked.outcome (Checked.mapError SheetError.rejected
        (Draft.empty.takeAll .lenient (read source.toList).marks)) =
        .ok ⟨⟨.ofList (items.flatMap SheetItem.variables), rules⟩, none, none⟩ := by
      rw [Checked.outcome_mapError, hread]
      exact congrArg (Except.mapError SheetError.rejected) htaken
    rw [parse, Checked.outcome_bind_of_ok _ _ _ hdraft, hread]
    rfl
  · intro name
    exact Dict.find?_ofList _ name

/-- A block with a variable, and a rule that uses it under two compounds. -/
def sampleItems : List SheetItem :=
  [.scope [.define "a" "1"],
    .rule ⟨⟨[⟨[.tag "B"]⟩, ⟨[.className "c"]⟩]⟩, [("d", "e;"), ("d", "a")]⟩]

/-- The sheet as a text with comments and a quoted semicolon. -/
def sampleText : String := "scope\x7ba:1;\x7d /*x*/B .c\x7bd:'e;'/**/;\n d:a ;\x7d"

theorem sheetText_sampleText : SheetText sampleItems sampleText.toList := by
  have ha : IsIdent "a" := ⟨by decide, List.all_eq_true.mp rfl⟩
  have hd : IsIdent "d" := ⟨by decide, List.all_eq_true.mp rfl⟩
  have hone : ValueText "1" "1;".toList :=
    .bare ['1'] [] (List.all_eq_true.mp rfl) (by simp) (by simp) .nil (by simp)
  have hquoted : ValueText "e;" "'e;'/**/;".toList :=
    .quoted '\x27' ['e', ';'] ['/', '*', '*', '/'] (Or.inr rfl) (by decide)
      (.comment [] [] rfl .nil)
  have hbare : ValueText "a" "a ;".toList :=
    .bare ['a'] [' '] (List.all_eq_true.mp rfl) (by simp) (by simp) (.space ' ' [] rfl .nil)
      fun _ => ⟨' ', [], rfl, rfl⟩
  have hblock : ScopeText [.define "a" "1"] "a:1;\x7d".toList :=
    .define "a" "1" [] [] _ _ .nil (.mk [] [] _ ha .nil .nil hone) (.close [] .nil)
  have hB : Compound.Supported ⟨[.tag "B"]⟩ :=
    ⟨by simp, by simpa using ⟨by decide, List.all_eq_true.mp rfl⟩, by simp⟩
  have hc : Compound.Supported ⟨[.className "c"]⟩ :=
    ⟨by simp, by simpa using ⟨by decide, List.all_eq_true.mp rfl⟩, by simp⟩
  have hhead : SelectorText [⟨[.tag "B"]⟩, ⟨[.className "c"]⟩] "B .c".toList :=
    .more _ _ [' '] _ hB (.space ' ' [] rfl .nil) (by simp) (by decide) (.last _ hc)
  have hbody : BodyText [("d", "e;"), ("d", "a")] "d:'e;'/**/;\n d:a ;\x7d".toList :=
    .declare "d" "e;" _ [] _ _ .nil (.mk [] [] _ hd .nil .nil hquoted)
      (.declare "d" "a" _ ['\n', ' '] _ _ (.space '\n' _ rfl (.space ' ' [] rfl .nil))
        (.mk [] [] _ hd .nil .nil hbare) (.close [] .nil))
  have hrule : RuleText ⟨⟨[⟨[.tag "B"]⟩, ⟨[.className "c"]⟩]⟩, [("d", "e;"), ("d", "a")]⟩
      "B .c\x7bd:'e;'/**/;\n d:a ;\x7d".toList :=
    .mk "B .c".toList [] "d:'e;'/**/;\n d:a ;\x7d".toList hhead .nil (by decide) hbody
  exact .scope _ _ [] [] _ _ .nil .nil hblock
    (.rule _ _ [' ', '/', '*', 'x', '*', '/'] _ []
      (.space ' ' _ rfl (.comment ['x'] [] rfl .nil)) hrule (by decide) (.finish [] .nil))

theorem parse_sampleText :
    SheetText sampleItems sampleText.toList ∧
      ∃ sheet, (parse .lenient sampleText).outcome = .ok sheet ∧
        sheet.definitions.find? "a" = some "1" ∧
        ∃ r, sheet.rules = [r] ∧ r.specificity = 11 ∧ r.properties.find? "d" = some "1" := by
  obtain ⟨sheet, hparse, hvariables, hrules⟩ :=
    parse_of_sheetText sampleItems sampleText sheetText_sampleText
  refine ⟨sheetText_sampleText, sheet, hparse, hvariables "a", ?_⟩
  obtain ⟨definitions, rules⟩ := sheet
  cases hrules with
  | cons hmeans hnone =>
    cases hnone
    exact ⟨_, rfl, hmeans.specificity, hmeans.properties "d"⟩

end FrameUI.Style
