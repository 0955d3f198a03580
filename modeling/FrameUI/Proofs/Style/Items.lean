import FrameUI.Proofs.Style.Sheets

/-!
# The items of a sheet

Every source that is read without a failure is a sequence of items: rules and blocks. The marks
tell the place of the reader at every moment, so they can be put together again. Main
statement: every accepted source has items.
-/

namespace FrameUI.Style

/-! ### What a step reads -/

/-- The marks of one step of the reader, and the place to which it leads. -/
inductive Moves : Place → List Mark → Place → Prop
  | skip : Moves .top [] .top
  | openScope : Moves .top [.scopeOpened] .scope
  | openRule (text : String) (selector : Selector) :
      Moves .top [.ruleOpened text selector] (.rule false)
  | define (name raw : String) : Moves .scope [.defined name raw] .scope
  | openInner (text : String) (selector : Selector) :
      Moves .scope [.ruleOpened text selector] (.rule true)
  | closeScope : Moves .scope [.scopeClosed] .top
  | declare (inScope : Bool) (name raw : String) :
      Moves (.rule inScope) [.declared name raw] (.rule inScope)
  | closeRule (inScope : Bool) :
      Moves (.rule inScope) [.ruleClosed] (if inScope then .scope else .top)

theorem moves_of_stepHead (inScope : Bool) (s rest : List Char) (ms : List Mark) (p : Place)
    (h : stepHead inScope s = .go ms p rest) :
    ∃ text selector, ms = [.ruleOpened text selector] ∧ p = .rule inScope := by
  unfold stepHead at h
  split at h
  · cases h
  · rename_i text selector rest' _
    cases h
    exact ⟨text, selector, rfl, rfl⟩

theorem moves_of_stepTop (s rest : List Char) (ms : List Mark) (p : Place)
    (h : stepTop s = .go ms p rest) : Moves .top ms p := by
  unfold stepTop at h
  split at h
  · cases h
  · split at h
    · cases h
      exact .openScope
    · split at h
      · cases h
        exact .skip
      · obtain ⟨text, selector, rfl, rfl⟩ := moves_of_stepHead _ _ _ _ _ h
        exact .openRule text selector

theorem moves_of_stepScope (s rest : List Char) (ms : List Mark) (p : Place)
    (h : stepScope s = .go ms p rest) : Moves .scope ms p := by
  unfold stepScope at h
  split at h
  · cases h
  · split at h
    · cases h
      exact .closeScope
    · split at h
      · split at h
        · cases h
        · rename_i name raw _ _
          split at h
          · cases h
            exact .define name raw
          · cases h
      · obtain ⟨text, selector, rfl, rfl⟩ := moves_of_stepHead _ _ _ _ _ h
        exact .openInner text selector

theorem moves_of_stepRule (inScope : Bool) (s rest : List Char) (ms : List Mark) (p : Place)
    (h : stepRule inScope s = .go ms p rest) : Moves (.rule inScope) ms p := by
  unfold stepRule at h
  split at h
  · cases h
  · split at h
    · cases h
      exact .closeRule inScope
    · split at h
      · cases h
      · rename_i name raw _ _
        split at h
        · cases h
          exact .declare inScope name raw
        · cases h

theorem moves_of_step (p p' : Place) (s rest : List Char) (ms : List Mark)
    (h : step p s = .go ms p' rest) : Moves p ms p' := by
  cases p with
  | top => exact moves_of_stepTop _ _ _ _ h
  | scope => exact moves_of_stepScope _ _ _ _ h
  | rule inScope => exact moves_of_stepRule _ _ _ _ _ h

theorem stepHead_ne_stop (inScope : Bool) (s : List Char) (ms : List Mark) :
    stepHead inScope s ≠ .stop ms none := by
  unfold stepHead
  split <;> simp

theorem top_of_stop (p : Place) (s : List Char) (ms : List Mark)
    (h : step p s = .stop ms none) : p = .top ∧ ms = [] := by
  cases p with
  | top =>
    simp only [step, stepTop] at h
    split at h
    · cases h
      exact ⟨rfl, rfl⟩
    · split at h
      · cases h
      · split at h
        · cases h
        · exact absurd h (stepHead_ne_stop _ _ _)
  | scope =>
    simp only [step, stepScope] at h
    split at h
    · cases h
    · split at h
      · cases h
      · split at h
        · split at h
          · cases h
          · split at h <;> cases h
        · exact absurd h (stepHead_ne_stop _ _ _)
  | rule inScope =>
    simp only [step, stepRule] at h
    split at h
    · cases h
    · split at h
      · cases h
      · split at h
        · cases h
        · split at h <;> cases h

/-! ### Putting the marks together -/

/-- The marks that may follow at a place: what is open is closed, and then items come. -/
inductive Follows : Place → List Mark → Prop
  | items (items : List SheetItem) (marks : List Mark) :
      SheetMarks items marks → Follows .top marks
  | inner (inner : List ScopeItem) (items : List SheetItem) (block marks : List Mark) :
      ScopeMarks inner block → SheetMarks items marks →
      Follows .scope (block ++ .scopeClosed :: marks)
  | rule (inScope : Bool) (pairs : List (String × String)) (marks : List Mark) :
      Follows (if inScope then .scope else .top) marks →
      Follows (.rule inScope)
        (pairs.map (fun pair => .declared pair.1 pair.2) ++ .ruleClosed :: marks)

theorem ruleMarks_append (shown : String) (r : RuleItem) (marks : List Mark) :
    ruleMarks shown r ++ marks = .ruleOpened shown r.selector ::
      (r.declarations.map (fun pair => .declared pair.1 pair.2) ++ .ruleClosed :: marks) := by
  simp [ruleMarks]

theorem Follows.step {p p' : Place} {ms marks : List Mark} (hmove : Moves p ms p')
    (h : Follows p' marks) : Follows p (ms ++ marks) := by
  cases hmove with
  | skip => exact h
  | openScope =>
    obtain _ | ⟨inner, items, block, marks, hinner, hitems⟩ := h
    exact .items _ _ (.scope inner items block marks hinner hitems)
  | openRule text selector =>
    obtain _ | _ | ⟨_, pairs, marks, hrest⟩ := h
    obtain ⟨items, _, hitems⟩ := hrest
    have hrule := SheetMarks.rule text ⟨selector, pairs⟩ items marks hitems
    rw [ruleMarks_append] at hrule
    exact .items _ _ hrule
  | define name raw =>
    obtain _ | ⟨inner, items, block, marks, hinner, hitems⟩ := h
    exact .inner _ items _ marks (.define name raw inner block hinner) hitems
  | openInner text selector =>
    obtain _ | _ | ⟨_, pairs, marks, hrest⟩ := h
    obtain _ | ⟨inner, items, block, marks, hinner, hitems⟩ := hrest
    have hblock := Follows.inner _ items _ marks
      (.rule text ⟨selector, pairs⟩ inner block hinner) hitems
    rw [List.append_assoc, ruleMarks_append] at hblock
    exact hblock
  | closeScope =>
    obtain ⟨items, _, hitems⟩ := h
    exact .inner [] items [] _ .nil hitems
  | declare inScope name raw =>
    obtain _ | _ | ⟨_, pairs, marks, hrest⟩ := h
    exact .rule inScope ((name, raw) :: pairs) marks hrest
  | closeRule inScope => exact .rule inScope [] _ h

theorem follows_readFrom (p : Place) (s : List Char) (h : (readFrom p s).failure = none) :
    Follows p (readFrom p s).marks := by
  cases hstep : Style.step p s with
  | stop ms failure =>
    rw [readFrom_of_stop p s ms failure hstep] at h ⊢
    obtain rfl : failure = none := h
    obtain ⟨rfl, rfl⟩ := top_of_stop p s ms hstep
    exact .items [] [] .nil
  | go ms p' rest =>
    have hlt := step_rest_lt p p' s rest ms hstep
    rw [readFrom_of_go p p' s rest ms hstep] at h ⊢
    exact (follows_readFrom p' rest h).step (moves_of_step p p' s rest ms hstep)
termination_by s.length

/-! ### The items of a source -/

/-- The items of a source, as it is read. -/
def HasItems (source : String) (items : List SheetItem) : Prop :=
  ∃ marks, read source.toList = ⟨marks, none⟩ ∧ SheetMarks items marks

theorem outcome_parse (v : Validator) (source : String) :
    (parse v source).outcome =
      ((Checked.outcome (Draft.empty.takeAll v (read source.toList).marks)).mapError
        SheetError.rejected).bind fun draft =>
          match (read source.toList).failure with
          | some f => .error (.malformed f.cause (.ofSuffix source.toList f.rest))
          | none => .ok draft.sheet := by
  unfold parse
  rw [Checked.outcome_bind, Checked.outcome_mapError]
  cases (read source.toList).failure with
  | some f => rfl
  | none => rfl

/-- What is taken from the marks of an accepted source is its sheet. -/
theorem parse_ok (v : Validator) (source : String) (sheet : Sheet)
    (h : (parse v source).outcome = .ok sheet) :
    (read source.toList).failure = none ∧
      ∃ draft, Checked.outcome (Draft.empty.takeAll v (read source.toList).marks) = .ok draft ∧
        draft.sheet = sheet := by
  rw [outcome_parse] at h
  cases htaken : Checked.outcome (Draft.empty.takeAll v (read source.toList).marks) with
  | error e =>
    rw [htaken] at h
    cases h
  | ok draft =>
    rw [htaken] at h
    cases hfailure : (read source.toList).failure with
    | some f =>
      rw [hfailure] at h
      cases h
    | none =>
      rw [hfailure] at h
      cases h
      exact ⟨rfl, draft, rfl, rfl⟩

theorem records_parse (v : Validator) (source : String) :
    ∃ more, (parse v source).records =
      Checked.records (Draft.empty.takeAll v (read source.toList).marks) ++ more := by
  unfold parse
  rw [Checked.records_bind, Checked.records_mapError]
  exact ⟨_, rfl⟩

/-- Every source that is accepted has items. -/
theorem exists_items_of_parse (v : Validator) (source : String) (sheet : Sheet)
    (h : (parse v source).outcome = .ok sheet) : ∃ items, HasItems source items := by
  obtain ⟨hfailure, _⟩ := parse_ok v source sheet h
  obtain ⟨items, _, hitems⟩ := follows_readFrom .top source.toList hfailure
  refine ⟨items, (read source.toList).marks, ?_, hitems⟩
  rw [← hfailure]

end FrameUI.Style
