import FrameUI.Proofs.Style.Heads

/-!
# Reading sheets

The marks that are read from the text of a sheet. They are those of its items in order,
whatever follows the text of an item, and no failure comes of them. Main statement:
`read_of_sheetText`.
-/

namespace FrameUI.Style

/-! ### The marks of a sheet -/

/-- The marks of a rule whose selector is shown as some text. -/
def ruleMarks (shown : String) (r : RuleItem) : List Mark :=
  .ruleOpened shown r.selector ::
    (r.declarations.map (fun pair => .declared pair.1 pair.2) ++ [.ruleClosed])

/-- The marks of what stands in a block, however the selectors are shown. -/
inductive ScopeMarks : List ScopeItem → List Mark → Prop
  | nil : ScopeMarks [] []
  | define (name raw : String) (items : List ScopeItem) (marks : List Mark) :
      ScopeMarks items marks →
      ScopeMarks (.define name raw :: items) (.defined name raw :: marks)
  | rule (shown : String) (r : RuleItem) (items : List ScopeItem) (marks : List Mark) :
      ScopeMarks items marks → ScopeMarks (.rule r :: items) (ruleMarks shown r ++ marks)

/-- The marks of a sheet, however the selectors are shown. -/
inductive SheetMarks : List SheetItem → List Mark → Prop
  | nil : SheetMarks [] []
  | rule (shown : String) (r : RuleItem) (items : List SheetItem) (marks : List Mark) :
      SheetMarks items marks → SheetMarks (.rule r :: items) (ruleMarks shown r ++ marks)
  | scope (inner : List ScopeItem) (items : List SheetItem) (block marks : List Mark) :
      ScopeMarks inner block → SheetMarks items marks →
      SheetMarks (.scope inner :: items) (.scopeOpened :: (block ++ .scopeClosed :: marks))

theorem Reading.after_after (r : Reading) (earlier later : List Mark) :
    (r.after later).after earlier = r.after (earlier ++ later) := by
  simp only [Reading.after, List.append_assoc]

/-! ### Declarations -/

theorem compoundChar_of_nameChar (c : Char) (h : Text.isNameChar c = true) :
    isCompoundChar c = true := by
  simp [isCompoundChar, h]

theorem PairText.front (name raw : String) (pair : List Char) (h : PairText name raw pair) :
    ∃ c r, pair = c :: r ∧ isCompoundChar c = true := by
  obtain ⟨before, after, value, hname, _, _, _⟩ := h
  obtain ⟨c, r, heq⟩ := List.exists_cons_of_ne_nil hname.nonempty
  refine ⟨c, r ++ (before ++ ':' :: (after ++ value)), ?_, ?_⟩
  · rw [heq, List.cons_append]
  · apply compoundChar_of_nameChar c
    apply hname.letters c
    rw [heq]
    exact List.mem_cons_self

theorem afterTrivia_append_compoundChar (trivia s : List Char) (c : Char) (h : Trivia trivia)
    (hc : isCompoundChar c = true) : afterTrivia (trivia ++ c :: s) = c :: s :=
  afterTrivia_append_token trivia s c h (not_space_of_compoundChar c hc)
    (ne_of_compoundChar c '/' hc (by decide))

theorem step_rule_declare (inScope : Bool) (name raw : String) (trivia pair s : List Char)
    (htrivia : Trivia trivia) (hpair : PairText name raw pair) :
    step (.rule inScope) (trivia ++ (pair ++ s)) =
      .go [.declared name raw] (.rule inScope) s := by
  have hread := readPair_of_pairText name raw pair s hpair
  obtain ⟨c, r, rfl, hc⟩ := hpair.front
  have hclose : c ≠ '}' := ne_of_compoundChar c '}' hc (by decide)
  rw [List.cons_append] at hread ⊢
  rw [step, afterTrivia_append_compoundChar trivia _ c htrivia hc]
  simp only [stepRule, if_neg hclose, hread]

theorem step_rule_close (inScope : Bool) (trivia s : List Char) (htrivia : Trivia trivia) :
    step (.rule inScope) (trivia ++ '}' :: s) =
      .go [.ruleClosed] (if inScope then .scope else .top) s := by
  rw [step, afterTrivia_append_token trivia s '}' htrivia (by decide) (by decide)]
  simp only [stepRule, if_true]

theorem readFrom_of_bodyText (inScope : Bool) (pairs : List (String × String))
    (body s : List Char) (h : BodyText pairs body) :
    readFrom (.rule inScope) (body ++ s) =
      (readFrom (if inScope then .scope else .top) s).after
        (pairs.map (fun pair => .declared pair.1 pair.2) ++ [.ruleClosed]) := by
  induction h with
  | close trivia htrivia =>
    have hstep := step_rule_close inScope trivia s htrivia
    have hassoc : trivia ++ ['}'] ++ s = trivia ++ '}' :: s := by
      simp
    rw [hassoc, readFrom_of_go _ _ _ _ _ hstep]
    rfl
  | declare name raw pairs trivia pair rest htrivia hpair _ ih =>
    have hstep := step_rule_declare inScope name raw trivia pair (rest ++ s) htrivia hpair
    have hassoc : trivia ++ (pair ++ rest) ++ s = trivia ++ (pair ++ (rest ++ s)) := by
      simp
    rw [hassoc, readFrom_of_go _ _ _ _ _ hstep, ih, Reading.after_after]
    rfl

/-! ### Rules -/

theorem RuleText.front (r : RuleItem) (text : List Char) (h : RuleText r text) :
    ∃ c rest, text = c :: rest ∧ isCompoundChar c = true := by
  obtain ⟨head, trivia, body, hhead, _, _, _⟩ := h
  obtain ⟨⟨c, r', heq, hc⟩, _⟩ := hhead.ends
  exact ⟨c, r' ++ (trivia ++ '{' :: body), by rw [heq, List.cons_append], hc⟩

/-- Once the head of a rule is reached, the rule is read to its end. -/
theorem readFrom_of_stepHead (inScope : Bool) (place : Place) (r : RuleItem)
    (input text s : List Char) (h : RuleText r text)
    (hstep : step place input = stepHead inScope (text ++ s)) :
    ∃ shown, readFrom place input =
      (readFrom (if inScope then .scope else .top) s).after (ruleMarks shown r) := by
  obtain ⟨head, trivia, body, hhead, htrivia, hbrace, hbody⟩ := h
  have hassoc : head ++ (trivia ++ '{' :: body) ++ s = head ++ (trivia ++ '{' :: (body ++ s)) := by
    simp
  obtain ⟨shown, hread⟩ := readHead_of_selectorText r.selector head trivia (body ++ s) hhead
    htrivia hbrace
  refine ⟨shown, ?_⟩
  have hgo : step place input = .go [.ruleOpened shown r.selector] (.rule inScope) (body ++ s) := by
    rw [hstep, hassoc]
    simp only [stepHead, hread]
  rw [readFrom_of_go _ _ _ _ _ hgo, readFrom_of_bodyText inScope _ body s hbody,
    Reading.after_after]
  rfl

theorem step_top_rule (r : RuleItem) (trivia text s : List Char) (htrivia : Trivia trivia)
    (h : RuleText r text) (hscope : r.selector ≠ scopeSelector) :
    step .top (trivia ++ (text ++ s)) = stepHead false (text ++ s) := by
  have hopen := openScope?_of_ruleText r text s h hscope
  obtain ⟨c, rest, rfl, hc⟩ := h.front
  have hat : c ≠ '@' := ne_of_compoundChar c '@' hc (by decide)
  rw [List.cons_append] at hopen ⊢
  rw [step, afterTrivia_append_compoundChar trivia _ c htrivia hc]
  simp only [stepTop, hopen, if_neg hat]

theorem step_scope_rule (r : RuleItem) (trivia text s : List Char) (htrivia : Trivia trivia)
    (h : RuleText r text) : step .scope (trivia ++ (text ++ s)) = stepHead true (text ++ s) := by
  have hvariable := startsVariable_of_ruleText r text s h
  obtain ⟨c, rest, rfl, hc⟩ := h.front
  have hclose : c ≠ '}' := ne_of_compoundChar c '}' hc (by decide)
  rw [List.cons_append] at hvariable ⊢
  rw [step, afterTrivia_append_compoundChar trivia _ c htrivia hc]
  simp only [stepScope, if_neg hclose, hvariable, Bool.false_eq_true, if_false]

/-! ### Blocks -/

theorem step_scope_variable (name raw : String) (trivia pair s : List Char)
    (htrivia : Trivia trivia) (hpair : PairText name raw pair) :
    step .scope (trivia ++ (pair ++ s)) = .go [.defined name raw] .scope s := by
  have hread := readPair_of_pairText name raw pair s hpair
  have hvariable := startsVariable_of_pairText name raw pair s hpair
  obtain ⟨c, r, rfl, hc⟩ := hpair.front
  have hclose : c ≠ '}' := ne_of_compoundChar c '}' hc (by decide)
  rw [List.cons_append] at hread hvariable ⊢
  rw [step, afterTrivia_append_compoundChar trivia _ c htrivia hc]
  simp only [stepScope, if_neg hclose, hvariable, if_true, hread]

theorem step_scope_close (trivia s : List Char) (htrivia : Trivia trivia) :
    step .scope (trivia ++ '}' :: s) = .go [.scopeClosed] .top s := by
  rw [step, afterTrivia_append_token trivia s '}' htrivia (by decide) (by decide)]
  simp only [stepScope, if_true]

theorem readFrom_of_scopeText (items : List ScopeItem) (text s : List Char)
    (h : ScopeText items text) :
    ∃ marks, ScopeMarks items marks ∧
      readFrom .scope (text ++ s) = (readFrom .top s).after (marks ++ [.scopeClosed]) := by
  induction h with
  | close trivia htrivia =>
    have hstep := step_scope_close trivia s htrivia
    have hassoc : trivia ++ ['}'] ++ s = trivia ++ '}' :: s := by
      simp
    refine ⟨[], .nil, ?_⟩
    rw [hassoc, readFrom_of_go _ _ _ _ _ hstep]
    rfl
  | define name raw items trivia pair rest htrivia hpair _ ih =>
    obtain ⟨marks, hmarks, hrest⟩ := ih
    have hstep := step_scope_variable name raw trivia pair (rest ++ s) htrivia hpair
    have hassoc : trivia ++ (pair ++ rest) ++ s = trivia ++ (pair ++ (rest ++ s)) := by
      simp
    refine ⟨_, .define name raw items marks hmarks, ?_⟩
    rw [hassoc, readFrom_of_go _ _ _ _ _ hstep, hrest, Reading.after_after]
    rfl
  | rule r items trivia text rest htrivia htext _ ih =>
    obtain ⟨marks, hmarks, hrest⟩ := ih
    have hstep := step_scope_rule r trivia text (rest ++ s) htrivia htext
    obtain ⟨shown, hrule⟩ := readFrom_of_stepHead true .scope r _ text (rest ++ s) htext hstep
    have hassoc : trivia ++ (text ++ rest) ++ s = trivia ++ (text ++ (rest ++ s)) := by
      simp
    refine ⟨_, .rule shown r items marks hmarks, ?_⟩
    rw [hassoc, hrule, if_pos rfl, hrest, Reading.after_after, List.append_assoc]

/-! ### Sheets -/

theorem step_top_scope (trivia trivia' s : List Char) (htrivia : Trivia trivia)
    (htrivia' : Trivia trivia') :
    step .top (trivia ++ (scopeWord ++ (trivia' ++ '{' :: s))) = .go [.scopeOpened] .scope s := by
  have hopen := openScope?_of_block trivia' s htrivia'
  have hstart : afterTrivia (trivia ++ (scopeWord ++ (trivia' ++ '{' :: s))) =
      scopeWord ++ (trivia' ++ '{' :: s) :=
    afterTrivia_append_compoundChar trivia _ 's' htrivia (by decide)
  rw [step, hstart]
  simp only [scopeWord, List.cons_append] at hopen ⊢
  simp only [stepTop, hopen]

theorem step_top_finish (trivia : List Char) (htrivia : Trivia trivia) :
    step .top trivia = .stop [] none := by
  rw [step, afterTrivia_trivia trivia htrivia]
  rfl

theorem read_of_sheetText (items : List SheetItem) (text : List Char) (h : SheetText items text) :
    ∃ marks, SheetMarks items marks ∧ read text = ⟨marks, none⟩ := by
  unfold read
  induction h with
  | finish trivia htrivia =>
    exact ⟨[], .nil, readFrom_of_stop _ _ _ _ (step_top_finish trivia htrivia)⟩
  | rule r items trivia text rest htrivia htext hscope _ ih =>
    obtain ⟨marks, hmarks, hrest⟩ := ih
    have hstep := step_top_rule r trivia text rest htrivia htext hscope
    obtain ⟨shown, hrule⟩ := readFrom_of_stepHead false .top r _ text rest htext hstep
    refine ⟨_, .rule shown r items marks hmarks, ?_⟩
    rw [hrule, if_neg (by decide), hrest]
    rfl
  | scope inner items trivia trivia' text rest htrivia htrivia' htext _ ih =>
    obtain ⟨marks, hmarks, hrest⟩ := ih
    obtain ⟨block, hblock, hinner⟩ := readFrom_of_scopeText inner text rest htext
    have hstep := step_top_scope trivia trivia' (text ++ rest) htrivia htrivia'
    refine ⟨_, .scope inner items block marks hblock hmarks, ?_⟩
    rw [readFrom_of_go _ _ _ _ _ hstep, hinner, hrest]
    simp [Reading.after]

end FrameUI.Style
