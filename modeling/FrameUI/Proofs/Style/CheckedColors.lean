import FrameUI.Proofs.Style.Cascade
import FrameUI.Proofs.Style.Spellings
import FrameUI.Proofs.Style.Violations

/-!
# Checked colours

Three properties have to be colours in a strictly accepted sheet. The check looks at a value when
it is declared, and the cascade puts the variables of the whole sheet into it once more. Main
statement: the colour that was checked is the colour that is shown, and white is never taken in its
place, unless the value is written with `rgb` and some variable of the sheet has that name.
-/

namespace FrameUI.Style

/-! ### Declarations that were met -/

namespace Draft

/-- Every value of the rules of a draft was met as a declaration. -/
structure Met (d : Draft) (met : List (String × String)) : Prop where
  rules : ∀ r ∈ d.sheet.rules, ∀ entry ∈ r.properties.entries, entry ∈ met
  rule : ∀ r ∈ d.rule, ∀ entry ∈ r.properties.entries, entry ∈ met

theorem met_empty : empty.Met [] := ⟨nofun, nofun⟩

theorem Met.append {d : Draft} {met : List (String × String)} (h : d.Met met)
    (more : List (String × String)) : d.Met (met ++ more) where
  rules r hr entry hentry := List.mem_append_left _ (h.rules r hr entry hentry)
  rule r hr entry hentry := List.mem_append_left _ (h.rule r hr entry hentry)

/-- Taking in a mark adds at most the declaration that it stands for. -/
theorem Met.take {d next : Draft} {met : List (String × String)} (h : d.Met met) (m : Mark)
    (htake : (d.take .lenient m).outcome = .ok next) :
    next.Met (met ++ (d.declaration? m).toList) := by
  have hmore := h.append (d.declaration? m).toList
  cases m with
  | declared name raw =>
    rw [outcome_take_declared] at htake
    cases htake
    refine ⟨hmore.rules, ?_⟩
    intro r hr entry hentry
    obtain ⟨old, hold, rfl⟩ := Option.map_eq_some_iff.mp hr
    rcases Dict.mem_entries_insert hentry with rfl | hentry
    · exact List.mem_append_right _ List.mem_cons_self
    · exact hmore.rule old hold entry hentry
  | ruleOpened text selector =>
    cases htake
    refine ⟨hmore.rules, ?_⟩
    rintro _ ⟨⟩ entry hentry
    exact absurd hentry List.not_mem_nil
  | ruleClosed =>
    cases htake
    refine ⟨?_, nofun⟩
    intro r hr
    rcases List.mem_append.mp hr with hr | hr
    · exact hmore.rules r hr
    · exact hmore.rule r (Option.mem_toList.mp hr)
  | scopeOpened =>
    cases htake
    exact ⟨hmore.rules, hmore.rule⟩
  | defined name raw =>
    cases htake
    exact ⟨hmore.rules, hmore.rule⟩
  | scopeClosed =>
    cases htake
    exact ⟨hmore.rules, hmore.rule⟩

theorem Met.takeAll {d last : Draft} {met : List (String × String)} (h : d.Met met)
    (ms : List Mark) (htake : (d.takeAll .lenient ms).outcome = .ok last) :
    last.Met (met ++ d.declarations ms) := by
  induction ms generalizing d met with
  | nil =>
    cases htake
    rw [declarations, List.append_nil]
    exact h
  | cons m ms ih =>
    obtain ⟨next, hnext, hrest⟩ := Checked.exists_of_outcome_bind htake
    have hmet := ih (h.take m hnext) hrest
    rw [declarations, hnext, ← List.append_assoc]
    exact hmet

end Draft

/-- The values of a strictly accepted sheet were met as declarations, and none violates a
check. -/
theorem met_of_parse_strict {source : String} {sheet : Sheet}
    (h : (parse .strict source).outcome = .ok sheet) :
    ∀ r ∈ sheet.rules, ∀ entry ∈ r.properties.entries,
      entry ∈ declarationsMet source ∧ violates entry = false := by
  obtain ⟨_, draft, htake, rfl⟩ := parse_ok .strict source sheet h
  rw [Draft.outcome_takeAll_strict] at htake
  cases hfind : (Draft.empty.declarations (read source.toList).marks).find? violates with
  | some refused =>
    rw [hfind] at htake
    cases htake
  | none =>
    rw [hfind] at htake
    have hmet := Draft.met_empty.takeAll _ htake
    intro r hr entry hentry
    have hmem : entry ∈ declarationsMet source := hmet.rules r hr entry hentry
    exact ⟨hmem, Bool.eq_false_iff.mpr (List.find?_eq_none.mp hfind entry hmem)⟩

theorem exists_rule_of_declarationsFor {sheet : Sheet} {e : Markup.Element}
    {ancestors : List Markup.Element} {entry : String × String}
    (h : entry ∈ sheet.declarationsFor e ancestors) :
    ∃ r ∈ sheet.rules, entry ∈ r.properties.entries := by
  obtain ⟨r, hr, hentry⟩ := List.mem_flatMap.mp h
  have hrule := (List.mergeSort_perm _ _).mem_iff.mp hr
  exact ⟨r, (List.mem_filter.mp hrule).1, hentry⟩

/-! ### Colours that were checked -/

theorem exists_color_of_not_violates {property text : String} (hproperty : property ∈ checkedColors)
    (h : violates (property, text) = false) : ∃ color, Rgba.ofText text = .ok color := by
  simp only [violates, Bool.or_eq_false_iff, Bool.and_eq_false_iff, Bool.not_eq_false'] at h
  rcases h.2 with hother | hcolor
  · rw [List.contains_iff_mem.mpr hproperty] at hother
    cases hother
  · cases hread : Rgba.ofText text with
    | ok color => exact ⟨color, rfl⟩
    | error e =>
      rw [hread] at hcolor
      cases hcolor

/-- A colour is understood as itself, without a warning. -/
theorem ofText_of_kind {property text : String} {color : Rgba}
    (hkind : PropertyKind.ofName property = .color) (h : Rgba.ofText text = .ok color) :
    StyleValue.ofText property text = pure (.color color) := by
  rw [StyleValue.ofText, hkind, Rgba.ofTextOrWhite, h]
  rfl

theorem applyDeclaration_of_kind {property text : String} {color : Rgba} (vars : Bindings)
    (hkind : PropertyKind.ofName property = .color) (h : Rgba.ofText text = .ok color)
    (hrgb : writesFunction text = true → vars.find? "rgb" = none) (style : ComputedStyle) :
    applyDeclaration vars style property text = pure (style.insert property (.color color)) := by
  rw [applyDeclaration, substitute_of_ofText vars text color h hrgb, pure_bind,
    ofText_of_kind hkind h, pure_bind]

theorem kind_of_checkedColors {property : String} (h : property ∈ checkedColors) :
    PropertyKind.ofName property = .color := by
  have hall : ∀ name ∈ checkedColors, PropertyKind.ofName name = .color := by decide
  exact hall property h

theorem ofText_of_color {property text : String} {color : Rgba}
    (hproperty : property ∈ checkedColors) (h : Rgba.ofText text = .ok color) :
    StyleValue.ofText property text = pure (.color color) :=
  ofText_of_kind (kind_of_checkedColors hproperty) h

/-- Whether a variable of the sheet hides the `rgb` that a colour is written with. -/
def Sheet.hidesFunction (sheet : Sheet) (text : String) : Bool :=
  writesFunction text && (sheet.definitions.find? "rgb").isSome

theorem find?_rgb_of_not_hidesFunction {sheet : Sheet} {text : String}
    (hplain : sheet.hidesFunction text = false) (hfunction : writesFunction text = true) :
    sheet.definitions.find? "rgb" = none := by
  rw [Sheet.hidesFunction, hfunction, Bool.true_and] at hplain
  exact Option.not_isSome_iff_eq_none.mp (Bool.eq_false_iff.mp hplain)

theorem substitute_of_not_hidesFunction {sheet : Sheet} {text : String} {color : Rgba}
    (h : Rgba.ofText text = .ok color) (hplain : sheet.hidesFunction text = false) :
    substitute (.ofTable sheet.definitions) text = pure text :=
  substitute_of_ofText (.ofTable sheet.definitions) text color h
    (find?_rgb_of_not_hidesFunction hplain)

theorem applyDeclaration_of_color {sheet : Sheet} {property text : String} {color : Rgba}
    (hproperty : property ∈ checkedColors) (h : Rgba.ofText text = .ok color)
    (hplain : sheet.hidesFunction text = false) (style : ComputedStyle) :
    applyDeclaration (.ofTable sheet.definitions) style property text =
      pure (style.insert property (.color color)) :=
  applyDeclaration_of_kind (.ofTable sheet.definitions) (kind_of_checkedColors hproperty) h
    (find?_rgb_of_not_hidesFunction hplain) style

/-- In a strictly accepted sheet each declaration of a checked property was met as a colour. Where
no variable hides how that colour is written, the declaration sets it without a warning, and the
style of an element has the colour of the last declaration. -/
theorem styleOf_checkedColors (source : String) (sheet : Sheet)
    (h : (parse .strict source).outcome = .ok sheet) (e : Markup.Element)
    (ancestors : List Markup.Element) (property : String) (hproperty : property ∈ checkedColors) :
    (∀ text, (property, text) ∈ sheet.declarationsFor e ancestors →
      (property, text) ∈ declarationsMet source ∧
        ∃ color, Rgba.ofText text = .ok color ∧
          (sheet.hidesFunction text = false → ∀ style,
            applyDeclaration (.ofTable sheet.definitions) style property text =
              pure (style.insert property (.color color)))) ∧
    ∀ value, (sheet.styleOf e ancestors).value.find? property = some value →
      ∃ text color, Dict.lastOf? property (sheet.declarationsFor e ancestors) = some text ∧
        (property, text) ∈ declarationsMet source ∧ Rgba.ofText text = .ok color ∧
          (sheet.hidesFunction text = false → value = .color color) := by
  have hdeclared : ∀ text, (property, text) ∈ sheet.declarationsFor e ancestors →
      (property, text) ∈ declarationsMet source ∧
        ∃ color, Rgba.ofText text = .ok color := by
    intro text hmem
    obtain ⟨r, hr, hentry⟩ := exists_rule_of_declarationsFor hmem
    obtain ⟨hmet, hpasses⟩ := met_of_parse_strict h r hr _ hentry
    exact ⟨hmet, exists_color_of_not_violates hproperty hpasses⟩
  constructor
  · intro text hmem
    obtain ⟨hmet, color, hcolor⟩ := hdeclared text hmem
    exact ⟨hmet, color, hcolor, applyDeclaration_of_color hproperty hcolor⟩
  · intro value hvalue
    rw [find?_styleOf] at hvalue
    obtain ⟨text, hlast, hresult⟩ := Option.map_eq_some_iff.mp hvalue
    obtain ⟨hmet, color, hcolor⟩ := hdeclared text (Dict.mem_of_lastOf? _ _ _ hlast)
    refine ⟨text, color, hlast, hmet, hcolor, fun hplain => ?_⟩
    rw [← hresult, substitute_of_not_hidesFunction hcolor hplain, Logged.value_pure,
      ofText_of_color hproperty hcolor, Logged.value_pure]

def textSelector : Selector := ⟨[⟨[.tag "Text"]⟩]⟩

/-- A sheet with a colour from a variable and a colour in brackets. -/
def inkSource : String :=
  "scope\x7bink:#102030;\x7d Text\x7btext-color:ink;button-color:rgb(1,2,3);\x7d"

def inkSheet : Sheet where
  definitions := .ofList [("ink", "#102030")]
  rules := [⟨"Text", textSelector,
    .ofList [("button-color", "rgb(1,2,3)"), ("text-color", "#102030")]⟩]

theorem styleOf_inkSheet :
    (parse .strict inkSource).outcome = .ok inkSheet ∧
      ("text-color", "#102030") ∈ declarationsMet inkSource ∧
      Rgba.ofText "#102030" = .ok (.rgb 16 32 48) ∧
      (inkSheet.styleOf ⟨"Text", ∅, []⟩ []).value.find? "text-color" =
        some (.color (.rgb 16 32 48)) := by
  have hparse : (parse .strict inkSource).outcome = .ok inkSheet :=
    Checked.eq_ok_of_toOption _ _ (by decide +kernel)
  have hvalue : (inkSheet.styleOf ⟨"Text", ∅, []⟩ []).value.find? "text-color" =
      some (.color (.rgb 16 32 48)) := by decide +kernel
  obtain ⟨text, color, hlast, hmet, hcolor, hshown⟩ := (styleOf_checkedColors inkSource inkSheet
    hparse ⟨"Text", ∅, []⟩ [] "text-color" (by decide)).2 _ hvalue
  have htext : Dict.lastOf? "text-color" (inkSheet.declarationsFor ⟨"Text", ∅, []⟩ []) =
      some "#102030" := by decide +kernel
  obtain rfl : text = "#102030" := Option.some.inj (hlast.symm.trans htext)
  have hsame := StyleValue.color.inj (hshown (by decide))
  exact ⟨hparse, hmet, by rw [hsame]; exact hcolor, hvalue⟩

/-- A sheet with a variable that hides how a colour is written. -/
def hiddenSource : String := "Text\x7btext-color:rgb(1,2,3);\x7dscope\x7brgb:x;\x7d"

def hiddenSheet : Sheet where
  definitions := .ofList [("rgb", "x")]
  rules := [⟨"Text", textSelector, .ofList [("text-color", "rgb(1,2,3)")]⟩]

/-- A colour that was checked can be shown as white. -/
theorem exists_styleOf_white :
    ∃ source sheet e ancestors text color,
      (parse .strict source).outcome = .ok sheet ∧
      Dict.lastOf? "text-color" (sheet.declarationsFor e ancestors) = some text ∧
      Rgba.ofText text = .ok color ∧ color ≠ .white ∧
      (sheet.styleOf e ancestors).value.find? "text-color" = some (.color .white) := by
  refine ⟨hiddenSource, hiddenSheet, ⟨"Text", ∅, []⟩, [], "rgb(1,2,3)", .rgb 1 2 3,
    Checked.eq_ok_of_toOption _ _ (by decide +kernel), by decide +kernel, ?_, by decide,
    by decide +kernel⟩
  exact Checked.eq_ok_of_toOption _ _ (by decide +kernel)

end FrameUI.Style
