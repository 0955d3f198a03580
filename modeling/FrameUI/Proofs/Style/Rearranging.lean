import FrameUI.Proofs.Style.Visibility
import FrameUI.Style.Cascade

/-!
# Where the variables of a sheet stand

A value is expanded twice: where it is declared, under the variables that came before it, and
when a style is computed, under all variables of the sheet. A block that only declares variables
can therefore stand anywhere. Main statement: two accepted sources that differ only in the places
of such blocks give every element the same style, as long as each variable is declared once and no
expansion meets its limit.
-/

namespace FrameUI.Style

/-! ### Styles -/

/-- A declaration as it counts for a style. -/
def resolved (vars : Bindings) (entry : String × String) : String × StyleValue :=
  (entry.1, (StyleValue.ofText entry.1 (substitute vars entry.2).value).value)

theorem value_applyDeclarations (vars : Bindings) (style : ComputedStyle)
    (entries : List (String × String)) :
    (applyDeclarations vars style entries).value =
      (entries.map (resolved vars)).foldl (fun acc entry => acc.insert entry.1 entry.2) style := by
  induction entries generalizing style with
  | nil => rfl
  | cons entry entries ih => exact ih _

theorem noLimitMet_applyDeclarations (vars : Bindings) (style : ComputedStyle)
    (entries : List (String × String))
    (h : NoLimitMet (applyDeclarations vars style entries).records) :
    ∀ entry ∈ entries, NoLimitMet (substitute vars entry.2).records := by
  induction entries generalizing style with
  | nil => exact fun _ hentry => absurd hentry List.not_mem_nil
  | cons first entries ih =>
    rw [applyDeclarations, Logged.records_bind, noLimitMet_append, applyDeclaration,
      Logged.records_bind, noLimitMet_append] at h
    intro entry hentry
    rcases List.mem_cons.1 hentry with rfl | hentry
    · exact h.1.1
    · exact ih _ h.2 entry hentry

/-! ### Two readings of a rule -/

/-- A parsed rule whose values were expanded to their end under some of the variables. -/
structure ReadUnder (all : Bindings) (rule : Bindings × RuleItem) (r : Rule) : Prop where
  means : Means rule.1 rule.2 r
  expanded : Expanded rule
  counted : rule.1.Counted
  within : rule.1.Within all

/-- One rule, read where different variables were visible. -/
def Twins (all : Bindings) (r r' : Rule) : Prop :=
  ∃ rule rule' : Bindings × RuleItem, rule.2 = rule'.2 ∧ ReadUnder all rule r ∧
    ReadUnder all rule' r'

/-- No value of a rule meets the limit when all variables are put in. -/
def Resolves (all : Bindings) (r : Rule) : Prop :=
  ∀ entry ∈ r.properties.entries, NoLimitMet (substitute all entry.2).records

theorem lookup_resolved (all : Bindings) (rule : Bindings × RuleItem) (r : Rule)
    (h : Means rule.1 rule.2 r) (name : String) :
    Dict.lookup name (r.properties.entries.map (resolved all)) =
      (Dict.lastOf? name rule.2.declarations).map fun raw =>
        (StyleValue.ofText name
          (substitute all (substitute rule.1 raw).value).value).value := by
  have hproperty : Dict.lookup name r.properties.entries =
      (Dict.lastOf? name rule.2.declarations).map fun raw => (substitute rule.1 raw).value :=
    h.properties name
  have hlookup := Dict.lookup_map
    (fun property raw => (StyleValue.ofText property (substitute all raw).value).value) name
    r.properties.entries
  rw [hproperty, Option.map_map] at hlookup
  exact hlookup

/-- A declared value that was expanded where it stands is one of the values of the rule. -/
theorem Resolves.declared {all : Bindings} {rule : Bindings × RuleItem} {r : Rule}
    (hresolves : Resolves all r) (h : Means rule.1 rule.2 r) (name raw : String)
    (hlast : Dict.lastOf? name rule.2.declarations = some raw) :
    NoLimitMet (substitute all (substitute rule.1 raw).value).records := by
  have hfind := h.properties name
  rw [hlast, Option.map_some, Dict.find?] at hfind
  have hmem := Dict.mem_of_lookup name _ _ hfind
  exact hresolves (name, (substitute rule.1 raw).value) hmem

theorem Twins.resolved_eq {all : Bindings} {r r' : Rule} (h : Twins all r r')
    (hall : all.Counted) (hresolves : Resolves all r) (hresolves' : Resolves all r') :
    r.properties.entries.map (resolved all) = r'.properties.entries.map (resolved all) := by
  obtain ⟨⟨vars, item⟩, ⟨vars', item'⟩, hitem, hr, hr'⟩ := h
  obtain rfl : item = item' := hitem
  have hsorted : ∀ d : Dict String,
      ((d.entries.map (resolved all)).map Prod.fst).Pairwise (· < ·) := by
    intro d
    rw [List.map_map]
    exact d.sorted
  apply Dict.entries_eq_of_lookup _ _ (hsorted _) (hsorted _)
  intro name
  rw [lookup_resolved all _ r hr.means, lookup_resolved all _ r' hr'.means]
  cases hlast : Dict.lastOf? name item.declarations with
  | none => rfl
  | some raw =>
    have hmem := Dict.mem_of_lastOf? name raw _ hlast
    have hquiet := hr.expanded (name, raw) hmem
    have hquiet' := hr'.expanded (name, raw) hmem
    have hagain := hresolves.declared hr.means name raw hlast
    have hagain' := hresolves'.declared hr'.means name raw hlast
    have hsame := substitute_substitute vars vars' all raw hr.counted hr'.counted hall hr.within
      hr'.within hquiet hquiet' hagain hagain'
    exact congrArg (fun text => some (StyleValue.ofText name text).value) hsame

/-! ### Sheets with the same rules -/

theorem forall₂_mergeSort {α : Type} {R : α → α → Prop} (le : α → α → Bool) (l l' : List α)
    (h : List.Forall₂ R l l') (hle : ∀ a a' b b', R a a' → R b b' → le a b = le a' b') :
    List.Forall₂ R (l.mergeSort le) (l'.mergeSort le) := by
  obtain ⟨hlength, hpairs⟩ := List.forall₂_iff_zip.1 h
  have hleft := List.map_fst_zip (Nat.le_of_eq hlength)
  have hright := List.map_snd_zip (Nat.le_of_eq hlength.symm)
  have hsorted := List.map_mergeSort (f := Prod.fst) (s := le) (l := l.zip l')
    (r := fun p q => le p.1 q.1) fun _ _ _ _ => rfl
  have hsorted' := List.map_mergeSort (f := Prod.snd) (s := le) (l := l.zip l')
    (r := fun p q => le p.1 q.1) fun p hp q hq => hle _ _ _ _ (hpairs hp) (hpairs hq)
  rw [hleft] at hsorted
  rw [hright] at hsorted'
  rw [← hsorted, ← hsorted', List.forall₂_map_left_iff, List.forall₂_map_right_iff,
    List.forall₂_same]
  intro p hp
  exact hpairs ((List.mergeSort_perm _ _).mem_iff.1 hp)

theorem Twins.selector_eq {all : Bindings} {r r' : Rule} (h : Twins all r r') :
    r.selector = r'.selector := by
  obtain ⟨rule, rule', hitem, hr, hr'⟩ := h
  rw [hr.means.selector, hr'.means.selector, hitem]

theorem forall₂_rulesFor (all : Bindings) (sheet sheet' : Sheet) (e : Markup.Element)
    (ancestors : List Markup.Element) (h : List.Forall₂ (Twins all) sheet.rules sheet'.rules) :
    List.Forall₂ (Twins all) (sheet.rulesFor e ancestors) (sheet'.rulesFor e ancestors) := by
  apply forall₂_mergeSort
  · apply List.rel_filter _ h
    intro r r' htwins
    simp only [htwins.selector_eq]
  · intro r r' s s' hr hs
    rw [Rule.specificity, Rule.specificity, hr.selector_eq, hs.selector_eq]
    rfl

theorem map_resolved_flatMap (all : Bindings) (hall : all.Counted) (rules rules' : List Rule)
    (h : List.Forall₂ (Twins all) rules rules') (hresolves : ∀ r ∈ rules, Resolves all r)
    (hresolves' : ∀ r ∈ rules', Resolves all r) :
    (rules.flatMap fun r => r.properties.entries).map (resolved all) =
      (rules'.flatMap fun r => r.properties.entries).map (resolved all) := by
  induction h with
  | nil => rfl
  | cons htwins _ ih =>
    have hfirst := htwins.resolved_eq hall (hresolves _ List.mem_cons_self)
      (hresolves' _ List.mem_cons_self)
    have hrest := ih (fun r hr => hresolves r (List.mem_cons_of_mem _ hr))
      fun r hr => hresolves' r (List.mem_cons_of_mem _ hr)
    rw [List.flatMap_cons, List.flatMap_cons, List.map_append, List.map_append, hfirst, hrest]

/-- Sheets whose rules are the same up to what was visible where they stand give the same
styles. -/
theorem styleOf_eq_of_twins (sheet sheet' : Sheet) (e : Markup.Element)
    (ancestors : List Markup.Element) (hdefinitions : sheet.definitions = sheet'.definitions)
    (h : List.Forall₂ (Twins (.ofTable sheet.definitions)) sheet.rules sheet'.rules)
    (hquiet : NoLimitMet (sheet.styleOf e ancestors).records)
    (hquiet' : NoLimitMet (sheet'.styleOf e ancestors).records) :
    (sheet.styleOf e ancestors).value = (sheet'.styleOf e ancestors).value := by
  have hentries := noLimitMet_applyDeclarations _ _ _ hquiet
  have hentries' := noLimitMet_applyDeclarations _ _ _ hquiet'
  rw [← hdefinitions] at hentries'
  have hresolves : ∀ r ∈ sheet.rulesFor e ancestors, Resolves (.ofTable sheet.definitions) r :=
    fun r hr entry hentry => hentries entry (List.mem_flatMap.2 ⟨r, hr, hentry⟩)
  have hresolves' : ∀ r ∈ sheet'.rulesFor e ancestors, Resolves (.ofTable sheet.definitions) r :=
    fun r hr entry hentry => hentries' entry (List.mem_flatMap.2 ⟨r, hr, hentry⟩)
  rw [Sheet.styleOf, Sheet.styleOf, value_applyDeclarations, value_applyDeclarations,
    ← hdefinitions, map_resolved_flatMap _ (Bindings.counted_ofTable _) _ _
      (forall₂_rulesFor _ sheet sheet' e ancestors h) hresolves hresolves']

/-! ### Moving blocks of variables -/

/-- Whether an item is a block that declares nothing but variables. -/
def SheetItem.isVariableBlock : SheetItem → Bool
  | .rule _ => false
  | .scope items => items.all fun
    | .define _ _ => true
    | .rule _ => false

/-- Two sheets have the same items, and all but the blocks of variables in the same order. -/
structure Rearranged (items items' : List SheetItem) : Prop where
  perm : items.Perm items'
  rest : items.filter (fun item => !item.isVariableBlock) =
    items'.filter fun item => !item.isVariableBlock

theorem innerRules_of_variableBlock (items : List ScopeItem)
    (h : (SheetItem.scope items).isVariableBlock = true) : innerRules items = [] := by
  apply List.filterMap_eq_nil_iff.2
  intro item hitem
  have hdefines := List.all_eq_true.1 h item hitem
  cases item with
  | define name raw => rfl
  | rule r => cases hdefines

theorem flatMap_rules_filter (items : List SheetItem) :
    (items.filter fun item => !item.isVariableBlock).flatMap SheetItem.rules =
      items.flatMap SheetItem.rules := by
  induction items with
  | nil => rfl
  | cons item items ih =>
    cases hblock : item.isVariableBlock with
    | false => rw [List.filter_cons_of_pos (by simp [hblock]), List.flatMap_cons, ih,
        List.flatMap_cons]
    | true =>
      have hnone : item.rules = [] := by
        cases item with
        | rule r => cases hblock
        | scope inner => exact innerRules_of_variableBlock inner hblock
      rw [List.filter_cons_of_neg (by simp [hblock]), List.flatMap_cons, hnone, List.nil_append,
        ih]

theorem Rearranged.rules_eq {items items' : List SheetItem} (h : Rearranged items items') :
    (sheetRules [] items).map Prod.snd = (sheetRules [] items').map Prod.snd := by
  rw [map_snd_sheetRules, map_snd_sheetRules, ← flatMap_rules_filter items, h.rest,
    flatMap_rules_filter]

theorem within_definitions {items : List SheetItem} {vars : Bindings}
    (hunique : ((items.flatMap SheetItem.variables).map Prod.fst).Nodup)
    (h : Visible (items.flatMap SheetItem.variables) vars) :
    vars.Within (.ofTable (.ofList (items.flatMap SheetItem.variables))) := by
  intro name value hvalue
  have hlast := (Dict.lastOf?_eq_some_iff name value _ hunique).2 (h.declared name value hvalue)
  exact (Dict.find?_ofList _ name).trans hlast

/-- The variables of an accepted source are those of its items, and its rules were read under
some of them. -/
theorem readUnder_of_parse (source : String) (sheet : Sheet) (items : List SheetItem)
    (h : (parse .lenient source).outcome = .ok sheet) (hitems : HasItems source items)
    (hunique : ((items.flatMap SheetItem.variables).map Prod.fst).Nodup)
    (hquiet : NoLimitMet (parse .lenient source).records) :
    sheet.definitions = .ofList (items.flatMap SheetItem.variables) ∧
      List.Forall₂ (ReadUnder (.ofTable sheet.definitions)) (sheetRules [] items) sheet.rules := by
  obtain ⟨marks, hread, hmarks⟩ := hitems
  obtain ⟨_, draft, htaken, rfl⟩ := parse_ok .lenient source sheet h
  obtain ⟨rules, hmean, hsheet⟩ := Draft.outcome_takeAll_sheet [] [] items marks hmarks
  obtain ⟨more, hrecords⟩ := records_parse .lenient source
  rw [hread] at htaken hrecords
  rw [hrecords, noLimitMet_append] at hquiet
  have hexpanded := Draft.settled_sheet [] [] items marks hmarks hquiet.1
  have hdraft : draft = ⟨⟨.ofList (items.flatMap SheetItem.variables), rules⟩, none, none⟩ :=
    Except.ok.inj (htaken.symm.trans hsheet)
  subst hdraft
  refine ⟨rfl, ?_⟩
  have hall := (List.forall₂_and_left _ _).2 ⟨fun rule hrule => And.intro (hexpanded rule hrule)
    (visible_sheetRules [] items rule hrule), hmean⟩
  refine List.Forall₂.imp ?_ hall
  intro rule r hrule
  obtain ⟨⟨hends, hvisible⟩, hmeans⟩ := hrule
  exact ⟨hmeans, hends, hvisible.counted, within_definitions hunique hvisible⟩

theorem forall₂_twins (all : Bindings) (read read' : List (Bindings × RuleItem))
    (rules rules' : List Rule) (h : List.Forall₂ (ReadUnder all) read rules)
    (h' : List.Forall₂ (ReadUnder all) read' rules')
    (hsame : read.map Prod.snd = read'.map Prod.snd) : List.Forall₂ (Twins all) rules rules' := by
  induction h generalizing read' rules' with
  | nil =>
    obtain rfl := List.map_eq_nil_iff.1 hsame.symm
    cases h'
    exact .nil
  | cons hfirst _ ih =>
    cases h' with
    | nil => cases hsame
    | cons hfirst' hrest' =>
      obtain ⟨hitem, hitems⟩ := List.cons.inj hsame
      exact .cons ⟨_, _, hitem, hfirst, hfirst'⟩ (ih _ _ hrest' hitems)

/-- Two accepted sources that differ only in where their blocks of variables stand give an
element the same style. -/
theorem styleOf_rearranged (source source' : String) (sheet sheet' : Sheet)
    (items items' : List SheetItem)
    (h : (parse .lenient source).outcome = .ok sheet)
    (h' : (parse .lenient source').outcome = .ok sheet')
    (hitems : HasItems source items) (hitems' : HasItems source' items')
    (hmoved : Rearranged items items')
    (hunique : ((items.flatMap SheetItem.variables).map Prod.fst).Nodup)
    (hquiet : NoLimitMet (parse .lenient source).records)
    (hquiet' : NoLimitMet (parse .lenient source').records)
    (e : Markup.Element) (ancestors : List Markup.Element)
    (hstyle : NoLimitMet (sheet.styleOf e ancestors).records)
    (hstyle' : NoLimitMet (sheet'.styleOf e ancestors).records) :
    (sheet.styleOf e ancestors).value = (sheet'.styleOf e ancestors).value := by
  have hperm := hmoved.perm.flatMap_right SheetItem.variables
  have hunique' := (hperm.map Prod.fst).nodup_iff.1 hunique
  obtain ⟨hdefinitions, hrules⟩ := readUnder_of_parse source sheet items h hitems hunique hquiet
  obtain ⟨hdefinitions', hrules'⟩ :=
    readUnder_of_parse source' sheet' items' h' hitems' hunique' hquiet'
  have hsame : sheet.definitions = sheet'.definitions := by
    rw [hdefinitions, hdefinitions', Dict.ofList_perm _ _ hunique hperm]
  rw [← hsame] at hrules'
  have htwins := forall₂_twins _ _ _ _ _ hrules hrules' hmoved.rules_eq
  exact styleOf_eq_of_twins sheet sheet' e ancestors hsame htwins hstyle hstyle'

def toneRule : RuleItem := ⟨⟨[⟨[.tag "B"]⟩]⟩, [("color", "tone"), ("text", "tone")]⟩

def inkBlock : SheetItem := .scope [.define "ink" "red"]

def toneBlock : SheetItem := .scope [.define "tone" "ink"]

def blocksFirst : String :=
  "scope\x7bink:red;\x7d scope\x7btone:ink;\x7d B\x7bcolor:tone;text:tone;\x7d"

def blocksAround : String :=
  "scope\x7btone:ink;\x7d B\x7bcolor:tone;text:tone;\x7d scope\x7bink:red;\x7d"

theorem hasItems_blocksFirst : HasItems blocksFirst [inkBlock, toneBlock, .rule toneRule] :=
  ⟨_, by decide +kernel, .scope _ _ _ _ (.define _ _ _ _ .nil)
    (.scope _ _ _ _ (.define _ _ _ _ .nil) (.rule "B" toneRule _ _ .nil))⟩

theorem hasItems_blocksAround : HasItems blocksAround [toneBlock, .rule toneRule, inkBlock] :=
  ⟨_, by decide +kernel, .scope _ _ _ _ (.define _ _ _ _ .nil)
    (.rule "B" toneRule _ _ (.scope _ _ _ _ (.define _ _ _ _ .nil) .nil))⟩

theorem rearranged_inkBlock :
    Rearranged [inkBlock, toneBlock, .rule toneRule] [toneBlock, .rule toneRule, inkBlock] where
  perm := (List.Perm.swap _ _ _).trans (.cons _ (.swap _ _ _))
  rest := rfl

/-- The variables of the sample, in a sheet whose rule was read as far as it could be. -/
def toneSheet (read : String) : Sheet where
  definitions := .ofList [("ink", "red"), ("tone", "ink")]
  rules := [⟨"B", toneRule.selector, .ofList [("color", read), ("text", read)]⟩]

theorem styleOf_inkBlock_moved :
    (parse .lenient blocksFirst).outcome = .ok (toneSheet "red") ∧
      (parse .lenient blocksAround).outcome = .ok (toneSheet "ink") ∧
      ((toneSheet "red").styleOf ⟨"B", ∅, []⟩ []).value =
        ((toneSheet "ink").styleOf ⟨"B", ∅, []⟩ []).value := by
  have hfirst : (parse .lenient blocksFirst).outcome = .ok (toneSheet "red") := by decide +kernel
  have haround : (parse .lenient blocksAround).outcome = .ok (toneSheet "ink") := by
    decide +kernel
  refine ⟨hfirst, haround, ?_⟩
  exact styleOf_rearranged blocksFirst blocksAround _ _ _ _ hfirst haround hasItems_blocksFirst
    hasItems_blocksAround rearranged_inkBlock (by decide) (by decide +kernel) (by decide +kernel)
    ⟨"B", ∅, []⟩ [] (by decide +kernel) (by decide +kernel)

end FrameUI.Style
