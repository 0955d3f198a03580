import FrameUI.Proofs.Style.Tokens

/-!
# Reading compounds

The characters that a compound is spelled with, and that a compound is read from the word that
spells it.
-/

namespace FrameUI.Style

/-! ### The characters of compounds -/

/-- Whether a character can stand in a compound. -/
def isCompoundChar (c : Char) : Bool := Text.isNameChar c || c == '.' || c == '#'

theorem isCompoundChar_cases (c : Char) (h : isCompoundChar c = true) :
    Text.isNameChar c = true ∨ c = '.' ∨ c = '#' := by
  simp only [isCompoundChar, Bool.or_eq_true, beq_iff_eq] at h
  rcases h with (h | h) | h
  · exact Or.inl h
  · exact Or.inr (Or.inl h)
  · exact Or.inr (Or.inr h)

theorem not_blank_of_compoundChar (c : Char) (h : isCompoundChar c = true) :
    Text.isBlank c = false := by
  rcases isCompoundChar_cases c h with h | rfl | rfl
  · exact Text.not_blank_of_nameChar c h
  · decide
  · decide

theorem not_space_of_compoundChar (c : Char) (h : isCompoundChar c = true) :
    isSpace c = false := by
  have hblank := not_blank_of_compoundChar c h
  cases hspace : isSpace c with
  | false => rfl
  | true =>
    rw [isBlank_of_isSpace c hspace] at hblank
    cases hblank

theorem ne_of_compoundChar (c d : Char) (h : isCompoundChar c = true)
    (hd : isCompoundChar d = false) : c ≠ d := by
  intro heq
  subst heq
  rw [h] at hd
  cases hd

theorem compoundChar_of_mem_part (part : SimpleSelector) (h : IsIdent part.name) :
    ∀ c ∈ part.spelled, isCompoundChar c = true := by
  have hname : ∀ c ∈ part.name.toList, isCompoundChar c = true := by
    intro c hc
    simp [isCompoundChar, h.letters c hc]
  intro c hc
  cases part with
  | tag name => exact hname c hc
  | className name =>
    rcases List.mem_cons.mp hc with rfl | hc
    · decide
    · exact hname c hc
  | id name =>
    rcases List.mem_cons.mp hc with rfl | hc
    · decide
    · exact hname c hc

theorem Compound.Supported.chars (c : Compound) (h : c.Supported) :
    ∀ d ∈ c.spelled, isCompoundChar d = true := by
  intro d hd
  obtain ⟨part, hpart, hmem⟩ := List.mem_flatMap.mp hd
  exact compoundChar_of_mem_part part (h.names part hpart) d hmem

theorem spelled_ne_nil (part : SimpleSelector) (h : IsIdent part.name) : part.spelled ≠ [] := by
  cases part with
  | tag name => exact h.nonempty
  | className name => exact List.cons_ne_nil _ _
  | id name => exact List.cons_ne_nil _ _

theorem Compound.Supported.spelled_ne_nil (c : Compound) (h : c.Supported) :
    c.spelled ≠ [] := by
  obtain ⟨parts⟩ := c
  cases parts with
  | nil => exact absurd rfl h.nonempty
  | cons part parts =>
    intro hnil
    have hfirst := (List.append_eq_nil_iff.mp hnil).1
    exact FrameUI.Style.spelled_ne_nil part (h.names part List.mem_cons_self) hfirst

/-! ### Reading one compound -/

theorem stopsAt_qualifiers (parts : List SimpleSelector)
    (htags : ∀ part ∈ parts, part.isTag = false) :
    Text.StopsAt Text.isNameChar (parts.flatMap SimpleSelector.spelled) := by
  cases parts with
  | nil => exact Text.stopsAt_nil _
  | cons part parts =>
    have hpart := htags part List.mem_cons_self
    cases part with
    | tag name => cases hpart
    | className name => exact Text.stopsAt_cons _ '.' _ (by decide)
    | id name => exact Text.stopsAt_cons _ '#' _ (by decide)

theorem readQualifier?_of_spelled (part : SimpleSelector) (rest : List Char)
    (hname : IsIdent part.name) (htag : part.isTag = false)
    (hrest : Text.StopsAt Text.isNameChar rest) :
    readQualifier? (part.spelled ++ rest) = some (part, rest) := by
  have hread := readIdent?_of_longestName _ rest (hname.longestName _ rest hrest)
  cases part with
  | tag name => cases htag
  | className name =>
    simp only [SimpleSelector.name] at hread
    simp only [SimpleSelector.spelled, List.cons_append, readQualifier?, hread, Option.map_some,
      String.ofList_toList]
  | id name =>
    simp only [SimpleSelector.name] at hread
    simp only [SimpleSelector.spelled, List.cons_append, readQualifier?, hread, Option.map_some,
      String.ofList_toList]

theorem readQualifiers_of_spelled (parts : List SimpleSelector)
    (hnames : ∀ part ∈ parts, IsIdent part.name) (htags : ∀ part ∈ parts, part.isTag = false) :
    readQualifiers (parts.flatMap SimpleSelector.spelled) = (parts, []) := by
  induction parts with
  | nil =>
    rw [List.flatMap_nil, readQualifiers]
    rfl
  | cons part parts ih =>
    have hmore : ∀ p ∈ parts, p.isTag = false := fun p hp => htags p (List.mem_cons_of_mem part hp)
    have hrest := ih (fun p hp => hnames p (List.mem_cons_of_mem part hp)) hmore
    have hfirst := readQualifier?_of_spelled part _ (hnames part List.mem_cons_self)
      (htags part List.mem_cons_self) (stopsAt_qualifiers parts hmore)
    rw [List.flatMap_cons, readQualifiers]
    split
    · rename_i hnone
      rw [hfirst] at hnone
      cases hnone
    · rename_i q rest hsome
      rw [hfirst] at hsome
      cases hsome
      simp only [hrest]

theorem ofWord?_spelled (c : Compound) (h : c.Supported) :
    Compound.ofWord? c.spelled = some c := by
  obtain ⟨parts⟩ := c
  cases parts with
  | nil => exact absurd rfl h.nonempty
  | cons part parts =>
    have hname := h.names part List.mem_cons_self
    have hnames : ∀ p ∈ parts, IsIdent p.name := fun p hp =>
      h.names p (List.mem_cons_of_mem part hp)
    have htags : ∀ p ∈ parts, p.isTag = false := h.tagFirst
    cases hfirst : part.isTag with
    | true =>
      cases part with
      | tag name =>
        have hlongest := hname.longestName _ _ (stopsAt_qualifiers parts htags)
        have hread := readIdent?_of_longestName _ _ hlongest
        have hqualifiers := readQualifiers_of_spelled parts hnames htags
        simp only [SimpleSelector.name] at hread
        simp only [Compound.ofWord?, Compound.read?, Compound.spelled, List.flatMap_cons,
          SimpleSelector.spelled, readTag, hread, String.ofList_toList, hqualifiers]
        rfl
      | className name => cases hfirst
      | id name => cases hfirst
    | false =>
      have hall : ∀ p ∈ part :: parts, p.isTag = false := by
        intro p hp
        rcases List.mem_cons.mp hp with rfl | hp
        · exact hfirst
        · exact htags p hp
      have hqualifiers := readQualifiers_of_spelled (part :: parts) h.names hall
      have hnone := readIdent?_of_stopsAt _ (stopsAt_qualifiers (part :: parts) hall)
      simp only [Compound.ofWord?, Compound.read?, Compound.spelled, readTag, hnone, hqualifiers]
      rfl

end FrameUI.Style
