import FrameUI.Proofs.Style.Expansion
import FrameUI.Proofs.Style.Items

/-!
# What the rules of a sheet see

A rule is read under the variables that were declared before it, and parsing records whenever one
of its values could not be expanded to its end. Main statements: in a sheet that is parsed without
such a record every value of every rule is expanded (`Draft.settled_sheet`), and whatever a rule
sees is declared somewhere in the sheet (`visible_sheetRules`).
-/

namespace FrameUI.Style

/-! ### Records of parsing -/

/-- Every value of a rule is expanded to its end. -/
def Expanded (rule : Bindings × RuleItem) : Prop :=
  ∀ pair ∈ rule.2.declarations, NoLimitMet (substitute rule.1 pair.2).records

namespace Draft

theorem records_take_declared (d : Draft) (name raw : String) :
    ∃ more, Checked.records (d.take .lenient (.declared name raw)) =
      (substitute d.bindings raw).records ++ more := by
  unfold take
  rw [Checked.records_bind_of_ok _ _ _ (Checked.outcome_lift (substitute d.bindings raw)),
    Checked.records_lift]
  exact ⟨_, rfl⟩

theorem records_takeAll_cons (v : Validator) (d d' : Draft) (m : Mark) (ms : List Mark)
    (h : Checked.outcome (d.take v m) = .ok d') :
    Checked.records (d.takeAll v (m :: ms)) =
      Checked.records (d.take v m) ++ Checked.records (d'.takeAll v ms) :=
  Checked.records_bind_of_ok _ _ d' h

theorem records_takeAll_append (v : Validator) (d d' : Draft) (ms more : List Mark)
    (h : Checked.outcome (d.takeAll v ms) = .ok d') :
    Checked.records (d.takeAll v (ms ++ more)) =
      Checked.records (d.takeAll v ms) ++ Checked.records (d'.takeAll v more) := by
  induction ms generalizing d with
  | nil =>
    cases h
    rfl
  | cons m ms ih =>
    cases htake : Checked.outcome (d.take v m) with
    | error e =>
      rw [takeAll, Checked.outcome_bind, htake] at h
      cases h
    | ok next =>
      rw [outcome_takeAll_cons v d next m ms htake] at h
      rw [List.cons_append, records_takeAll_cons v d next m _ htake,
        records_takeAll_cons v d next m _ htake, ih next h, List.append_assoc]

/-- The marks of a sheet are taken in without any substitution meeting its limit. -/
def Settled (d : Draft) (ms : List Mark) : Prop :=
  NoLimitMet (Checked.records (d.takeAll .lenient ms))

theorem Settled.cons {d d' : Draft} {m : Mark} {ms : List Mark} (h : d.Settled (m :: ms))
    (htake : Checked.outcome (d.take .lenient m) = .ok d') :
    NoLimitMet (Checked.records (d.take .lenient m)) ∧ d'.Settled ms := by
  rw [Settled, records_takeAll_cons _ d d' m ms htake] at h
  exact (noLimitMet_append _ _).1 h

theorem Settled.append {d d' : Draft} {ms more : List Mark} (h : d.Settled (ms ++ more))
    (htake : Checked.outcome (d.takeAll .lenient ms) = .ok d') :
    d.Settled ms ∧ d'.Settled more := by
  rw [Settled, records_takeAll_append _ d d' ms more htake] at h
  exact (noLimitMet_append _ _).1 h

theorem settled_declared (d : Draft) (pairs : List (String × String)) (more : List Mark)
    (h : d.Settled (pairs.map (fun pair => .declared pair.1 pair.2) ++ more)) :
    ∀ pair ∈ pairs, NoLimitMet (substitute d.bindings pair.2).records := by
  induction pairs generalizing d with
  | nil => exact fun _ hpair => absurd hpair List.not_mem_nil
  | cons first pairs ih =>
    obtain ⟨hfirst, hrest⟩ := h.cons (outcome_take_declared d first.1 first.2)
    obtain ⟨others, hrecords⟩ := records_take_declared d first.1 first.2
    rw [hrecords] at hfirst
    intro pair hpair
    rcases List.mem_cons.1 hpair with rfl | hpair
    · exact ((noLimitMet_append _ _).1 hfirst).1
    · exact ih _ hrest pair hpair

theorem settled_rule (d : Draft) (shown : String) (r : RuleItem)
    (h : d.Settled (ruleMarks shown r)) : Expanded (d.bindings, r) := by
  have hopened : Checked.outcome (d.take .lenient (.ruleOpened shown r.selector)) =
      .ok { d with rule := some ⟨shown, r.selector, ∅⟩ } := rfl
  have hall := settled_declared _ r.declarations [.ruleClosed] (h.cons hopened).2
  exact hall

theorem settled_scope (earlier locals : List (String × String)) (rules : List Rule)
    (items : List ScopeItem) (marks : List Mark) (h : ScopeMarks items marks)
    (hsettled : Settled ⟨⟨.ofList earlier, rules⟩, some (.ofList locals), none⟩ marks) :
    ∀ rule ∈ scopeRules earlier locals items, Expanded rule := by
  induction h generalizing locals rules with
  | nil => exact fun _ hrule => absurd hrule List.not_mem_nil
  | define name raw items marks _ ih =>
    refine ih (locals ++ [(name, raw)]) rules ?_
    exact (hsettled.cons (outcome_take_defined earlier locals rules name raw)).2
  | rule shown r items marks _ ih =>
    obtain ⟨hrule, hrest⟩ := hsettled.append (outcome_takeAll_rule _ shown r rfl)
    intro rule hmem
    rcases List.mem_cons.1 hmem with rfl | hmem
    · exact settled_rule _ shown r hrule
    · exact ih locals _ hrest rule hmem

theorem settled_sheet (earlier : List (String × String)) (rules : List Rule)
    (items : List SheetItem) (marks : List Mark) (h : SheetMarks items marks)
    (hsettled : Settled ⟨⟨.ofList earlier, rules⟩, none, none⟩ marks) :
    ∀ rule ∈ sheetRules earlier items, Expanded rule := by
  induction h generalizing earlier rules with
  | nil => exact fun _ hrule => absurd hrule List.not_mem_nil
  | rule shown r items marks _ ih =>
    obtain ⟨hrule, hrest⟩ := hsettled.append (outcome_takeAll_rule _ shown r rfl)
    intro rule hmem
    rcases List.mem_cons.1 hmem with rfl | hmem
    · exact settled_rule _ shown r hrule
    · exact ih earlier _ hrest rule hmem
  | scope inner items block marks hblock _ ih =>
    obtain ⟨own, _, hinner⟩ := outcome_takeAll_scope earlier [] rules inner block hblock
    obtain ⟨hbody, hrest⟩ :=
      (hsettled.cons (outcome_take_scopeOpened earlier rules)).2.append hinner
    have hafter := (hrest.cons (outcome_take_scopeClosed earlier _ _)).2
    intro rule hmem
    rcases List.mem_append.1 hmem with hmem | hmem
    · exact settled_scope earlier [] rules inner block hblock hbody rule hmem
    · exact ih (earlier ++ scopeVariables inner) (rules ++ own) hafter rule hmem

end Draft

/-! ### What rules see -/

def innerRules (items : List ScopeItem) : List RuleItem :=
  items.filterMap fun
    | .define _ _ => none
    | .rule r => some r

def SheetItem.rules : SheetItem → List RuleItem
  | .rule r => [r]
  | .scope items => innerRules items

theorem map_snd_scopeRules (earlier locals : List (String × String)) (items : List ScopeItem) :
    (scopeRules earlier locals items).map Prod.snd = innerRules items := by
  induction items generalizing locals with
  | nil => rfl
  | cons item items ih =>
    cases item with
    | define name raw => exact ih _
    | rule r => exact congrArg (r :: ·) (ih locals)

theorem map_snd_sheetRules (earlier : List (String × String)) (items : List SheetItem) :
    (sheetRules earlier items).map Prod.snd = items.flatMap SheetItem.rules := by
  induction items generalizing earlier with
  | nil => rfl
  | cons item items ih =>
    cases item with
    | rule r => exact congrArg (r :: ·) (ih earlier)
    | scope inner =>
      rw [sheetRules, List.map_append, map_snd_scopeRules, ih]
      rfl

/-- Variables that are visible to a rule: whatever is found is among some declarations. -/
structure Visible (declared : List (String × String)) (vars : Bindings) : Prop where
  counted : vars.Counted
  declared : ∀ name value, vars.find? name = some value → (name, value) ∈ declared

theorem visible_ofTable (pairs : List (String × String)) :
    Visible pairs (.ofTable (.ofList pairs)) := by
  refine ⟨Bindings.counted_ofTable _, ?_⟩
  intro name value h
  have hlast : Dict.lastOf? name pairs = some value := by
    rw [← Dict.find?_ofList]
    exact h
  exact Dict.mem_of_lastOf? name value pairs hlast

theorem visible_layered (earlier locals : List (String × String)) :
    Visible (earlier ++ locals) (.layered (.ofList earlier) (.ofList locals)) := by
  refine ⟨Bindings.counted_layered _ _, ?_⟩
  intro name value h
  simp only [Bindings.layered, Dict.find?_ofList, ← Dict.lastOf?_append] at h
  exact Dict.mem_of_lastOf? name value _ h

theorem Visible.mono {some all : List (String × String)} {vars : Bindings}
    (h : Visible some vars) (hsub : some ⊆ all) : Visible all vars :=
  ⟨h.counted, fun name value hvalue => hsub (h.declared name value hvalue)⟩

theorem visible_scopeRules (earlier locals : List (String × String)) (items : List ScopeItem) :
    ∀ rule ∈ scopeRules earlier locals items,
      Visible (earlier ++ (locals ++ scopeVariables items)) rule.1 := by
  induction items generalizing locals with
  | nil => exact fun _ hrule => absurd hrule List.not_mem_nil
  | cons item items ih =>
    intro rule hrule
    cases item with
    | define name raw =>
      have hvisible := ih (locals ++ [(name, raw)]) rule hrule
      rw [List.append_assoc] at hvisible
      exact hvisible
    | rule r =>
      rcases List.mem_cons.1 hrule with rfl | hrule
      · apply (visible_layered earlier locals).mono
        rw [← List.append_assoc]
        exact List.subset_append_left _ _
      · exact ih locals rule hrule

theorem visible_sheetRules (earlier : List (String × String)) (items : List SheetItem) :
    ∀ rule ∈ sheetRules earlier items,
      Visible (earlier ++ items.flatMap SheetItem.variables) rule.1 := by
  induction items generalizing earlier with
  | nil => exact fun _ hrule => absurd hrule List.not_mem_nil
  | cons item items ih =>
    intro rule hrule
    cases item with
    | rule r =>
      rcases List.mem_cons.1 hrule with rfl | hrule
      · exact (visible_ofTable earlier).mono (List.subset_append_left _ _)
      · exact ih earlier rule hrule
    | scope inner =>
      rw [List.flatMap_cons, ← List.append_assoc]
      rcases List.mem_append.1 hrule with hrule | hrule
      · exact (visible_scopeRules earlier [] inner rule hrule).mono (List.subset_append_left _ _)
      · exact ih _ rule hrule

end FrameUI.Style
