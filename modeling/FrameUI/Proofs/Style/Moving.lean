import FrameUI.Proofs.Style.RulePlaces
import FrameUI.Proofs.Style.Visibility

/-!
# Moving a rule out of its block

A rule at the end of a block can be written behind the block. It is read there with the same
marks, for what the closing brace and the rule hide from a comment that is open in front of them
does not depend on their order. It is given the same values, for the table that the block leaves
finds what the layers in the block find, and a substitution that ends does so in one text. Main
statement: `parse_moveRule`.
-/

namespace FrameUI.Style

/-! ### Two ways to write a rule -/

/-- A source around a rule that ends a block: the trivia in front of the rule, those that go with
it, and the closing brace with the blanks in front of it. -/
structure RuleCut where
  before : List Char
  gap : List Char
  rule : List Char
  trivia : List Char
  closing : List Char
  after : List Char

namespace RuleCut

/-- What follows the rule in its block. -/
def rest (cut : RuleCut) : List Char := cut.trivia ++ (cut.closing ++ cut.after)

/-- The source with the rule in its block. -/
def source (cut : RuleCut) : List Char := cut.before ++ (cut.gap ++ (cut.rule ++ cut.rest))

/-- The source with the rule directly behind the closing brace. -/
def moved (cut : RuleCut) : List Char :=
  cut.before ++ (cut.gap ++ (cut.closing ++ (cut.rule ++ (cut.trivia ++ cut.after))))

/-- The reader comes into a block with some marks, and what it reads there last is a rule. -/
structure EndsBlock (cut : RuleCut) (marks : List Mark) (shown : String) (r : RuleItem) :
    Prop where
  gap : Trivia cut.gap
  front : ∃ c s, cut.rule = c :: s ∧ isSpace c = false ∧ c ≠ '/'
  trivia : Trivia cut.trivia
  closing : IsClosing cut.closing
  block : Reads .top cut.source marks .scope (cut.gap ++ (cut.rule ++ cut.rest))
  read : Reads .scope (cut.rule ++ cut.rest) (ruleMarks shown r) .scope cut.rest

end RuleCut

theorem readFrom_append_trivia (p : Place) (trivia s : List Char) (h : Trivia trivia) :
    readFrom p (trivia ++ s) = readFrom p s := by
  have hsame : step p (trivia ++ s) = step p s := by
    cases p <;> simp only [step, afterTrivia_append trivia s h]
  cases hstep : step p s with
  | stop ms failure =>
    rw [readFrom_of_stop p s ms failure hstep, readFrom_of_stop p _ ms failure (hsame.trans hstep)]
  | go ms p' rest =>
    rw [readFrom_of_go p p' s rest ms hstep, readFrom_of_go p p' _ rest ms (hsame.trans hstep)]

theorem readFrom_closing (trivia closing s : List Char) (htrivia : Trivia trivia)
    (hclosing : IsClosing closing) :
    readFrom .scope (trivia ++ (closing ++ s)) = (readFrom .top s).after [.scopeClosed] := by
  have hstep : step .scope (trivia ++ (closing ++ s)) = .go [.scopeClosed] .top s := by
    rw [step, afterTrivia_append trivia _ htrivia, hclosing.afterTrivia_append]
    simp only [stepScope, if_true]
  exact readFrom_of_go _ _ _ _ _ hstep

namespace RuleCut.EndsBlock

variable {cut : RuleCut} {marks : List Mark} {shown : String} {r : RuleItem}

theorem readFrom_source (h : cut.EndsBlock marks shown r) :
    readFrom .top cut.source =
      (readFrom .top cut.after).after (marks ++ (ruleMarks shown r ++ [.scopeClosed])) := by
  rw [h.block.readFrom_eq, readFrom_append_trivia .scope _ _ h.gap, h.read.readFrom_eq, rest,
    readFrom_closing _ _ _ h.trivia h.closing, Reading.after_after, Reading.after_after,
    List.append_assoc]

theorem readFrom_moved (h : cut.EndsBlock marks shown r) (hscope : r.selector ≠ scopeSelector)
    (hend : (readFrom .top cut.after).failure = none) :
    readFrom .top cut.moved =
      (readFrom .top cut.after).after (marks ++ (.scopeClosed :: ruleMarks shown r)) := by
  obtain ⟨c, s, hrule, hspace, hslash⟩ := h.front
  have hread := h.read
  rw [hrule, List.cons_append] at hread
  obtain ⟨head, body, hparts, hfront⟩ := ruleParts_of_reads c s cut.rest shown r hspace hslash hread
  have hpiece := hparts.isPiece c s hslash hfront cut.trivia h.trivia
  rw [← hrule] at hpiece
  -- What has been read in front of the rule is read alike in front of the closing brace.
  have hshows := (showsNoMore_swap _ cut.closing cut.after hpiece h.closing
    (stopsAt_star_of_readFrom_top _ hend) fun d hd => by
      rcases hd with rfl | rfl
      · exact ne_of_readFrom_top _ hend ':' (by decide)
      · exact ne_of_readFrom_top _ hend '{' (by decide)).append_left cut.gap
  rw [List.append_assoc, List.append_assoc] at hshows
  have hne : cut.gap ++ (cut.rule ++ cut.rest) ≠ [] := by
    rw [hrule]
    simp
  obtain ⟨before, hbefore, hblock⟩ := h.block.local hshows hne
  obtain rfl := List.append_cancel_right hbefore
  rw [moved, hblock.readFrom_eq, readFrom_closing _ _ _ h.gap h.closing, hrule, List.cons_append,
    hparts.readFrom_top hscope c s _ hspace hslash hfront, readFrom_append_trivia .top _ _ h.trivia,
    Reading.after_after, Reading.after_after, List.append_assoc, List.singleton_append]

end RuleCut.EndsBlock

theorem Reads.suffix {p p' : Place} {s rest : List Char} {ms : List Mark}
    (h : Reads p s ms p' rest) (hne : rest ≠ []) : ∃ u, s = u ++ rest := by
  obtain ⟨u, hu, _⟩ := h.local (y := rest) (fun _ _ _ _ => id) hne
  exact ⟨u, hu⟩

/-- Wherever a rule is read as the last of a block, the source is cut around it. -/
theorem exists_endsBlock (source s rest after : List Char) (marks : List Mark) (shown : String)
    (r : RuleItem) (hblock : Reads .top source marks .scope s)
    (hread : Reads .scope s (ruleMarks shown r) .scope rest)
    (hclose : step .scope rest = .go [.scopeClosed] .top after) :
    ∃ cut : RuleCut, cut.source = source ∧ cut.after = after ∧
      cut.EndsBlock marks shown r := by
  have hbrace := brace_of_stepScope _ after .top hclose
  obtain ⟨⟨trivia, htrivia, rfl⟩, _⟩ := trivia_of_afterTrivia rest '}' after hbrace
  have hne : trivia ++ '}' :: after ≠ [] := by simp
  obtain ⟨p, behind, hstep, hbehind⟩ := hread.cons_inv (by decide)
  obtain ⟨hhead, _⟩ := readHead_of_stepScope _ behind shown r.selector p hstep
  obtain ⟨before, rfl⟩ := hblock.suffix fun hnil => by
    rw [hnil] at hstep
    cases hstep
  cases hfront : afterTrivia s with
  | nil =>
    rw [step, hfront] at hstep
    cases hstep
  | cons c t =>
    obtain ⟨⟨gap, hgap, rfl⟩, hspace, hcomment⟩ := trivia_of_afterTrivia s c t hfront
    rw [hfront] at hhead
    have hslash := ne_of_front (front_of_readHead c t _ hcomment hhead) (d := '/') (by decide)
    rw [step, afterTrivia_append gap _ hgap] at hstep
    have hrule : Reads .scope (c :: t) (ruleMarks shown r) .scope (trivia ++ '}' :: after) :=
      .step .scope p .scope _ behind _ _ _ hstep hbehind
    obtain ⟨rule, heq⟩ := hrule.suffix hne
    cases rule with
    | nil =>
      -- The head of the rule has been read, so some text lies in front of the rest.
      obtain ⟨u, rfl⟩ := hbehind.suffix hne
      have hlt := readHead_rest_lt _ _ _ _ hhead
      rw [heq] at hlt
      simp only [List.nil_append, List.length_append] at hlt
      omega
    | cons d rule =>
      obtain ⟨rfl, rfl⟩ := List.cons.inj heq
      refine ⟨⟨before, gap, c :: rule, trivia, ['}'], after⟩, rfl, rfl, ?_⟩
      exact ⟨hgap, ⟨c, rule, rfl, hspace, hslash⟩, htrivia, ⟨[], by simp, rfl⟩, hblock, hrule⟩

/-! ### The values of a moved rule -/

namespace Draft

/-- The draft once its block is closed. -/
def close (d : Draft) : Draft :=
  { d with
    sheet := { d.sheet with definitions := d.sheet.definitions.merge (d.scope.getD ∅) }
    scope := none }

theorem counted_bindings (d : Draft) : d.bindings.Counted := by
  obtain ⟨sheet, scope, rule⟩ := d
  cases scope with
  | none => exact Bindings.counted_ofTable _
  | some inner => exact Bindings.counted_layered _ inner

/-- When a block is closed its variables are found as they were in it. -/
theorem find?_bindings_close (d : Draft) : d.close.bindings.find? = d.bindings.find? := by
  obtain ⟨sheet, scope, rule⟩ := d
  funext name
  cases scope with
  | none => exact Dict.find?_merge sheet.definitions ∅ name
  | some inner => exact Dict.find?_merge sheet.definitions inner name

end Draft

/-- Substitutions that find the same variables and end come to the same text, whatever number of
rounds each is granted. -/
theorem substitute_eq_of_find? (vars vars' : Bindings) (value : String) (hcounted : vars.Counted)
    (hcounted' : vars'.Counted) (hfind : vars'.find? = vars.find?)
    (hquiet : NoLimitMet (substitute vars value).records)
    (hquiet' : NoLimitMet (substitute vars' value).records) :
    (substitute vars' value).value = (substitute vars value).value := by
  obtain ⟨hexpands, hend⟩ := expandsTo_substitute vars hcounted value hquiet
  obtain ⟨hexpands', hend'⟩ := expandsTo_substitute vars' hcounted' value hquiet'
  rw [hfind] at hexpands' hend'
  exact String.toList_inj.1 (hexpands'.unique hexpands hend' hend)

namespace Draft

theorem exists_of_takeAll_append {v : Validator} {d e : Draft} {ms more : List Mark}
    (h : Checked.outcome (d.takeAll v (ms ++ more)) = .ok e) :
    ∃ next, Checked.outcome (d.takeAll v ms) = .ok next ∧
      Checked.outcome (next.takeAll v more) = .ok e := by
  rw [outcome_takeAll_append] at h
  cases htaken : Checked.outcome (d.takeAll v ms) with
  | ok next =>
    rw [htaken] at h
    exact ⟨next, rfl, h⟩
  | error e =>
    rw [htaken] at h
    cases h

theorem outcome_take_declared_close (v : Validator) (d e : Draft) (name raw : String)
    (hsame : (substitute d.close.bindings raw).value = (substitute d.bindings raw).value)
    (h : Checked.outcome (d.take v (.declared name raw)) = .ok e) :
    Checked.outcome (d.close.take v (.declared name raw)) = .ok e.close ∧
      e.bindings = d.bindings ∧ e.close.bindings = d.close.bindings := by
  unfold take at h ⊢
  rw [Checked.outcome_bind_of_ok _ _ _ (Checked.outcome_lift (substitute d.bindings raw))] at h
  obtain ⟨_, hcheck, htaken⟩ := Checked.exists_of_outcome_bind h
  cases htaken
  refine ⟨?_, rfl, rfl⟩
  rw [Checked.outcome_bind_of_ok _ _ _ (Checked.outcome_lift (substitute d.close.bindings raw)),
    hsame, Checked.outcome_bind_of_ok _ _ _ hcheck]
  rfl

/-- The variables that are found in a block and behind it give some declarations the same
values. -/
def SameValues (d : Draft) (pairs : List (String × String)) : Prop :=
  ∀ pair ∈ pairs,
    (substitute d.close.bindings pair.2).value = (substitute d.bindings pair.2).value

theorem outcome_takeAll_declared_close (v : Validator) (d e : Draft)
    (pairs : List (String × String)) (hsame : d.SameValues pairs)
    (h : Checked.outcome (d.takeAll v (pairs.map fun pair => .declared pair.1 pair.2)) = .ok e) :
    Checked.outcome (d.close.takeAll v (pairs.map fun pair => .declared pair.1 pair.2)) =
      .ok e.close := by
  induction pairs generalizing d with
  | nil =>
    cases h
    rfl
  | cons pair pairs ih =>
    rw [List.map_cons] at h ⊢
    obtain ⟨next, htake, hrest⟩ := Checked.exists_of_outcome_bind h
    obtain ⟨hclosed, hinner, houter⟩ := outcome_take_declared_close v d next pair.1 pair.2
      (hsame pair List.mem_cons_self) htake
    rw [outcome_takeAll_cons v _ _ _ _ hclosed]
    refine ih next (fun later hlater => ?_) hrest
    rw [hinner, houter]
    exact hsame later (List.mem_cons_of_mem pair hlater)

def openRule (d : Draft) (shown : String) (selector : Selector) : Draft :=
  { d with rule := some ⟨shown, selector, ∅⟩ }

/-- A rule is taken in alike before its block is closed and after that. -/
theorem outcome_takeAll_rule_close (v : Validator) (d e : Draft) (shown : String) (r : RuleItem)
    (hsame : d.SameValues r.declarations)
    (h : Checked.outcome (d.takeAll v (ruleMarks shown r)) = .ok e) :
    Checked.outcome (d.close.takeAll v (ruleMarks shown r)) = .ok e.close := by
  have hopened : ∀ d : Draft, Checked.outcome (d.take v (.ruleOpened shown r.selector)) =
      .ok (d.openRule shown r.selector) := fun _ => rfl
  have hsame' : (d.openRule shown r.selector).SameValues r.declarations := hsame
  rw [ruleMarks, outcome_takeAll_cons v _ _ _ _ (hopened d)] at h
  obtain ⟨next, hdeclared, hclosed⟩ := exists_of_takeAll_append h
  cases hclosed
  have hdeclared' := outcome_takeAll_declared_close v _ next r.declarations hsame' hdeclared
  rw [ruleMarks, outcome_takeAll_cons v _ _ _ _ (hopened d.close)]
  exact outcome_takeAll_append_of_ok v _ _ _ _ hdeclared'

theorem sameValues_of_quiet (d : Draft) (pairs : List (String × String))
    (hinside : ∀ pair ∈ pairs, NoLimitMet (substitute d.bindings pair.2).records)
    (houtside : ∀ pair ∈ pairs, NoLimitMet (substitute d.close.bindings pair.2).records) :
    d.SameValues pairs := by
  intro pair hpair
  exact substitute_eq_of_find? d.bindings d.close.bindings pair.2 d.counted_bindings
    d.close.counted_bindings d.find?_bindings_close (hinside pair hpair) (houtside pair hpair)

/-- A rule and the end of its block change places among the marks. -/
theorem outcome_takeAll_swap (v : Validator) (d final : Draft) (shown : String) (r : RuleItem)
    (more : List Mark) (hsame : d.SameValues r.declarations)
    (h : Checked.outcome (d.takeAll v (ruleMarks shown r ++ .scopeClosed :: more)) = .ok final) :
    Checked.outcome (d.takeAll v (.scopeClosed :: (ruleMarks shown r ++ more))) = .ok final := by
  have hclosed : ∀ d : Draft, Checked.outcome (d.take v .scopeClosed) = .ok d.close := fun _ => rfl
  obtain ⟨next, hrule, hrest⟩ := exists_of_takeAll_append h
  have hrule' := outcome_takeAll_rule_close v d next shown r hsame hrule
  rw [outcome_takeAll_cons v _ _ _ _ (hclosed d), outcome_takeAll_append_of_ok v _ _ _ _ hrule',
    ← outcome_takeAll_cons v _ _ _ _ (hclosed next)]
  exact hrest

end Draft

/-! ### Moving a rule -/

/-- A rule at the end of a block may be written directly behind the block: the source is accepted
with the same sheet, whichever variables of the block hide global ones. -/
theorem parse_moveRule (v : Validator) (cut : RuleCut) (marks : List Mark) (shown : String)
    (r : RuleItem) (d : Draft) (sheet : Sheet) (hcut : cut.EndsBlock marks shown r)
    (hscope : r.selector ≠ scopeSelector)
    (hparse : (parse v (String.ofList cut.source)).outcome = .ok sheet)
    (hdraft : Checked.outcome (Draft.empty.takeAll v marks) = .ok d)
    (hinside : ∀ pair ∈ r.declarations, NoLimitMet (substitute d.bindings pair.2).records)
    (houtside : ∀ pair ∈ r.declarations, NoLimitMet (substitute d.close.bindings pair.2).records) :
    (parse v (String.ofList cut.moved)).outcome = .ok sheet := by
  obtain ⟨hfailure, final, htaken, rfl⟩ := parse_ok v _ sheet hparse
  rw [String.toList_ofList, read, hcut.readFrom_source] at hfailure htaken
  have hend : (readFrom .top cut.after).failure = none := hfailure
  have hsame := d.sameValues_of_quiet r.declarations hinside houtside
  have htaken' : Checked.outcome (Draft.empty.takeAll v
      (marks ++ (ruleMarks shown r ++ .scopeClosed :: (readFrom .top cut.after).marks))) =
      .ok final := by
    simpa [Reading.after] using htaken
  rw [Draft.outcome_takeAll_append_of_ok v _ d _ _ hdraft] at htaken'
  have hswapped := Draft.outcome_takeAll_swap v d final shown r _ hsame htaken'
  have hmoved : Checked.outcome (Draft.empty.takeAll v (readFrom .top cut.moved).marks) =
      .ok final := by
    rw [hcut.readFrom_moved hscope hend, Reading.after, List.append_assoc, List.cons_append,
      Draft.outcome_takeAll_append_of_ok v _ d _ _ hdraft]
    exact hswapped
  have hquiet : (readFrom .top cut.moved).failure = none := by
    rw [hcut.readFrom_moved hscope hend]
    exact hend
  rw [outcome_parse, String.toList_ofList, read, hmoved, hquiet]
  rfl

/-- A number of steps from a place, with their marks and what they come to. -/
def runSteps : Nat → Place → List Char → Option (List Mark × Place × List Char)
  | 0, p, s => some ([], p, s)
  | n + 1, p, s =>
    match step p s with
    | .stop _ _ => none
    | .go ms p' rest => (runSteps n p' rest).map fun r => (ms ++ r.1, r.2)

theorem reads_of_runSteps (n : Nat) (p p' : Place) (s rest : List Char) (ms : List Mark)
    (h : runSteps n p s = some (ms, p', rest)) : Reads p s ms p' rest := by
  induction n generalizing p s ms with
  | zero =>
    cases h
    exact .nil _ _
  | succ n ih =>
    rw [runSteps] at h
    cases hstep : step p s with
    | stop ms failure =>
      rw [hstep] at h
      cases h
    | go first next behind =>
      rw [hstep] at h
      obtain ⟨⟨later, stop⟩, hlater, heq⟩ := Option.map_eq_some_iff.mp h
      cases heq
      exact .step p next p' s behind rest first later hstep (ih next behind later hlater)

/-- A block that hides a variable of the block before it, and ends with a rule. -/
def hidingCut : RuleCut where
  before := "scope\x7ba:1;b:a;\x7dscope\x7ba:2;c:b;".toList
  gap := ['\n']
  rule := "B\x7bx:c;y:a;\x7d".toList
  trivia := []
  closing := ['\n', '}']
  after := "C\x7bz:c;\x7d".toList

def hidingMarks : List Mark :=
  [.scopeOpened, .defined "a" "1", .defined "b" "a", .scopeClosed,
    .scopeOpened, .defined "a" "2", .defined "c" "b"]

def hidingRule : RuleItem := ⟨⟨[⟨[.tag "B"]⟩]⟩, [("x", "c"), ("y", "a")]⟩

def hidingDraft : Draft :=
  ⟨⟨.ofList [("a", "1"), ("b", "a")], []⟩, some (.ofList [("a", "2"), ("c", "b")]), none⟩

def hidingSheet : Sheet where
  definitions := .ofList [("a", "2"), ("b", "a"), ("c", "b")]
  rules := [⟨"B", ⟨[⟨[.tag "B"]⟩]⟩, .ofList [("x", "2"), ("y", "2")]⟩,
    ⟨"C", ⟨[⟨[.tag "C"]⟩]⟩, .ofList [("z", "2")]⟩]

theorem endsBlock_hidingCut : hidingCut.EndsBlock hidingMarks "B" hidingRule where
  gap := .space '\n' [] rfl .nil
  front := ⟨'B', "\x7bx:c;y:a;\x7d".toList, rfl, rfl, by decide⟩
  trivia := .nil
  closing := ⟨['\n'], List.all_eq_true.mp rfl, rfl⟩
  block := reads_of_runSteps 7 _ _ _ _ _ (by decide +kernel)
  read := reads_of_runSteps 4 _ _ _ _ _ (by decide +kernel)

theorem parse_moveRule_hidingCut :
    hidingCut.EndsBlock hidingMarks "B" hidingRule ∧ hidingRule.selector ≠ scopeSelector ∧
      (parse .lenient (String.ofList hidingCut.source)).outcome = .ok hidingSheet ∧
      Checked.outcome (Draft.empty.takeAll .lenient hidingMarks) = .ok hidingDraft ∧
      (parse .lenient (String.ofList hidingCut.moved)).outcome = .ok hidingSheet := by
  have hscope : hidingRule.selector ≠ scopeSelector := by decide
  have hparse : (parse .lenient (String.ofList hidingCut.source)).outcome = .ok hidingSheet := by
    decide +kernel
  have hdraft : Checked.outcome (Draft.empty.takeAll .lenient hidingMarks) = .ok hidingDraft := by
    rfl
  refine ⟨endsBlock_hidingCut, hscope, hparse, hdraft, ?_⟩
  exact parse_moveRule .lenient hidingCut hidingMarks "B" hidingRule hidingDraft hidingSheet
    endsBlock_hidingCut hscope hparse hdraft (by decide +kernel) (by decide +kernel)

end FrameUI.Style
