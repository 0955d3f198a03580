import FrameUI.Proofs.Style.Rearranging
import Mathlib.Data.Prod.Lex

/-!
# The cascade, property by property

The rules of an element are sorted by specificity and their declarations applied in turn, each
over the one before it. What remains for a property comes from one rule: of those that match the
element and declare the property, the greatest by specificity and then by its place in the sheet.
Main statement: `find?_styleOf_iff_strongest`.
-/

namespace FrameUI.Style

/-! ### Declarations that count -/

/-- The declarations that apply to an element, the weakest first. -/
def Sheet.declarationsFor (sheet : Sheet) (e : Markup.Element)
    (ancestors : List Markup.Element) : List (String × String) :=
  (sheet.rulesFor e ancestors).flatMap fun r => r.properties.entries

/-- The style of an element has the last of its declarations for each property. -/
theorem find?_styleOf (sheet : Sheet) (e : Markup.Element) (ancestors : List Markup.Element)
    (property : String) :
    (sheet.styleOf e ancestors).value.find? property =
      (Dict.lastOf? property (sheet.declarationsFor e ancestors)).map fun text =>
        (StyleValue.ofText property
          (substitute (.ofTable sheet.definitions) text).value).value := by
  have hlast := Dict.lastOf?_map (fun property text => (StyleValue.ofText property
    (substitute (.ofTable sheet.definitions) text).value).value) property
    (sheet.declarationsFor e ancestors)
  rw [Sheet.styleOf, value_applyDeclarations, Dict.find?_foldl_insert]
  exact (Option.or_none).trans hlast

/-! ### Sorting keeps the order of equals -/

section Sorting

variable {α : Type} (key : α → Nat)

theorem key_le_trans (a b c : α) (hab : decide (key a ≤ key b) = true)
    (hbc : decide (key b ≤ key c) = true) : decide (key a ≤ key c) = true := by
  simp only [decide_eq_true_eq] at hab hbc ⊢
  omega

theorem key_le_total (a b : α) : (decide (key a ≤ key b) || decide (key b ≤ key a)) = true := by
  simp only [Bool.or_eq_true, decide_eq_true_eq]
  omega

theorem pairwise_mergeSort_key (l : List α) :
    (l.mergeSort fun a b => decide (key a ≤ key b)).Pairwise fun a b => key a ≤ key b :=
  (List.pairwise_mergeSort (key_le_trans key) (key_le_total key) l).imp of_decide_eq_true

/-- The items of one key stand in the sorted list as they stood before. -/
theorem filter_mergeSort_key (k : Nat) (l : List α) :
    (l.mergeSort fun a b => decide (key a ≤ key b)).filter (fun a => key a == k) =
      l.filter fun a => key a == k := by
  have halike : (l.filter fun a => key a == k).Pairwise
      fun a b => decide (key a ≤ key b) = true := by
    apply List.pairwise_of_forall_mem_list
    intro a ha b hb
    simp only [List.mem_filter, beq_iff_eq] at ha hb
    simp only [decide_eq_true_eq]
    omega
  have hkept := List.sublist_mergeSort (key_le_trans key) (key_le_total key) halike
    List.filter_sublist
  have hfilter := hkept.filter fun a => key a == k
  simp only [List.filter_filter, Bool.and_self] at hfilter
  have hperm := (List.mergeSort_perm l fun a b => decide (key a ≤ key b)).filter
    fun a => key a == k
  exact (hfilter.eq_of_length hperm.length_eq.symm).symm

end Sorting

/-! ### Rules at their places -/

/-- The strength of a rule at some place of a sheet: its specificity counts first. -/
def Rule.rank (r : Rule) (place : Nat) : Nat ×ₗ Nat := toLex ((r.specificity : Nat), place)

theorem Rule.rank_lt_iff (r s : Rule) (i j : Nat) :
    r.rank i < s.rank j ↔ (r.specificity : Nat) < s.specificity ∨
      (r.specificity : Nat) = s.specificity ∧ i < j :=
  Prod.Lex.lt_iff

/-- The rules that match an element with their places in the sheet, the weakest first. -/
def Sheet.placedFor (sheet : Sheet) (e : Markup.Element) (ancestors : List Markup.Element) :
    List (Rule × Nat) :=
  (sheet.rules.zipIdx.filter fun p => p.1.selector.matchesElement e ancestors).mergeSort
    fun p q => decide ((p.1.specificity : Nat) ≤ q.1.specificity)

variable (sheet : Sheet) (e : Markup.Element) (ancestors : List Markup.Element)

theorem map_fst_placedFor :
    (sheet.placedFor e ancestors).map Prod.fst = sheet.rulesFor e ancestors := by
  have hfilter :
      (sheet.rules.zipIdx.map Prod.fst).filter (fun r => r.selector.matchesElement e ancestors) =
        (sheet.rules.zipIdx.filter fun p => p.1.selector.matchesElement e ancestors).map Prod.fst :=
    List.filter_map
  rw [List.zipIdx_map_fst] at hfilter
  rw [Sheet.rulesFor, hfilter]
  exact List.map_mergeSort fun _ _ _ _ => decide_eq_decide.2 UInt32.le_iff_toNat_le.symm

theorem mem_placedFor_iff (r : Rule) (place : Nat) :
    (r, place) ∈ sheet.placedFor e ancestors ↔
      sheet.rules[place]? = some r ∧ r.selector.matchesElement e ancestors = true := by
  rw [Sheet.placedFor, (List.mergeSort_perm _ _).mem_iff, List.mem_filter,
    List.mem_zipIdx_iff_getElem?]

theorem pairwise_zipIdx {α : Type} (l : List α) (n : Nat) :
    (l.zipIdx n).Pairwise fun p q => p.2 < q.2 := by
  induction l generalizing n with
  | nil => exact .nil
  | cons a l ih =>
    rw [List.zipIdx_cons, List.pairwise_cons]
    refine ⟨?_, ih (n + 1)⟩
    rintro ⟨b, i⟩ hmem
    have hbound := List.le_snd_of_mem_zipIdx hmem
    simp only at hbound ⊢
    omega

theorem pairwise_rank_placedFor :
    (sheet.placedFor e ancestors).Pairwise fun p q => p.1.rank p.2 < q.1.rank q.2 := by
  rw [List.pairwise_iff_forall_sublist]
  intro p q hpair
  have hsorted := pairwise_mergeSort_key (fun p : Rule × Nat => (p.1.specificity : Nat))
    (sheet.rules.zipIdx.filter fun p => p.1.selector.matchesElement e ancestors)
  have hle := List.pairwise_iff_forall_sublist.mp hsorted hpair
  rw [Rule.rank_lt_iff]
  rcases Nat.lt_or_eq_of_le hle with hlt | heq
  · exact Or.inl hlt
  · -- Rules of one specificity stand as they do in the sheet.
    have hsame := hpair.filter fun s => (s.1.specificity : Nat) == p.1.specificity
    rw [Sheet.placedFor, filter_mergeSort_key] at hsame
    simp only [List.filter_cons, beq_self_eq_true, if_true, heq.symm, List.filter_nil] at hsame
    have hplaces := (pairwise_zipIdx sheet.rules 0).sublist
      (hsame.trans (List.filter_sublist.trans List.filter_sublist))
    rw [List.pairwise_cons] at hplaces
    exact Or.inr ⟨heq, hplaces.1 q List.mem_cons_self⟩

/-! ### The rule that counts -/

/-- A rule matches an element and declares a property, at its place in the sheet. -/
structure Declares (property : String) (place : Nat) (r : Rule) (raw : String) : Prop where
  stands : sheet.rules[place]? = some r
  applies : r.selector.matchesElement e ancestors = true
  value : r.properties.find? property = some raw

/-- Of the rules that match an element and declare a property, the one of the greatest rank. -/
structure IsStrongest (property : String) (place : Nat) (r : Rule) (raw : String) : Prop extends
    Declares sheet e ancestors property place r raw where
  greatest : ∀ other s text, Declares sheet e ancestors property other s text →
    s.rank other ≤ r.rank place

variable {sheet e ancestors} {property raw raw' : String} {place place' : Nat} {r r' : Rule}

theorem declares_iff_mem_placedFor :
    Declares sheet e ancestors property place r raw ↔
      (r, place) ∈ sheet.placedFor e ancestors ∧ r.properties.find? property = some raw := by
  rw [mem_placedFor_iff]
  constructor
  · rintro ⟨hstands, happlies, hvalue⟩
    exact ⟨⟨hstands, happlies⟩, hvalue⟩
  · rintro ⟨⟨hstands, happlies⟩, hvalue⟩
    exact ⟨hstands, happlies, hvalue⟩

theorem IsStrongest.unique (h : IsStrongest sheet e ancestors property place r raw)
    (h' : IsStrongest sheet e ancestors property place' r' raw') : raw = raw' := by
  have hrank := le_antisymm (h'.greatest _ _ _ h.toDeclares) (h.greatest _ _ _ h'.toDeclares)
  obtain ⟨_, rfl⟩ := Prod.mk.inj (toLex.injective hrank)
  obtain rfl : r = r' := Option.some.inj (h.stands.symm.trans h'.stands)
  exact Option.some.inj (h.value.symm.trans h'.value)

theorem lastOf?_entries (property : String) (d : Dict String) :
    Dict.lastOf? property d.entries = d.find? property := by
  rw [← Dict.find?_ofList, Dict.ofList_entries]

/-- Where rules are in the order of their ranks, the last declaration of a property is that of
the greatest rank. -/
theorem lastOf?_placed (property : String) (placed : List (Rule × Nat))
    (h : placed.Pairwise fun p q => p.1.rank p.2 < q.1.rank q.2) :
    match Dict.lastOf? property ((placed.map Prod.fst).flatMap fun r => r.properties.entries) with
    | none => ∀ p ∈ placed, p.1.properties.find? property = none
    | some raw => ∃ p ∈ placed, p.1.properties.find? property = some raw ∧
        ∀ q ∈ placed, q.1.properties.find? property ≠ none → q.1.rank q.2 ≤ p.1.rank p.2 := by
  induction placed with
  | nil => exact fun _ hp => absurd hp List.not_mem_nil
  | cons p placed ih =>
    rw [List.pairwise_cons] at h
    have hrest := ih h.2
    rw [List.map_cons, List.flatMap_cons, Dict.lastOf?_append, lastOf?_entries]
    cases hlast : Dict.lastOf? property
        ((placed.map Prod.fst).flatMap fun r => r.properties.entries) with
    | some raw =>
      rw [hlast] at hrest
      obtain ⟨q, hq, hvalue, hgreatest⟩ := hrest
      refine ⟨q, List.mem_cons_of_mem _ hq, hvalue, ?_⟩
      intro s hs hdeclares
      rcases List.mem_cons.mp hs with rfl | hs
      · exact (h.1 q hq).le
      · exact hgreatest s hs hdeclares
    | none =>
      rw [hlast] at hrest
      rw [Option.none_or]
      cases hfirst : p.1.properties.find? property with
      | none =>
        intro q hq
        rcases List.mem_cons.mp hq with rfl | hq
        · exact hfirst
        · exact hrest q hq
      | some raw =>
        refine ⟨p, List.mem_cons_self, hfirst, ?_⟩
        intro q hq hdeclares
        rcases List.mem_cons.mp hq with rfl | hq
        · exact le_rfl
        · exact absurd (hrest q hq) hdeclares

variable (sheet e ancestors) in
/-- Either no rule declares a property and the style of an element lacks it, or the style has it
from the strongest rule. -/
theorem strongest_or_none (property : String) :
    ((sheet.styleOf e ancestors).value.find? property = none ∧
      ∀ place r raw, ¬ Declares sheet e ancestors property place r raw) ∨
    ∃ place r raw, IsStrongest sheet e ancestors property place r raw ∧
      (sheet.styleOf e ancestors).value.find? property =
        some (StyleValue.ofText property
          (substitute (.ofTable sheet.definitions) raw).value).value := by
  have hplaced := lastOf?_placed property _ (pairwise_rank_placedFor sheet e ancestors)
  rw [map_fst_placedFor, ← Sheet.declarationsFor] at hplaced
  rw [find?_styleOf]
  cases hlast : Dict.lastOf? property (sheet.declarationsFor e ancestors) with
  | none =>
    rw [hlast] at hplaced
    refine Or.inl ⟨rfl, ?_⟩
    intro place r raw hdeclares
    obtain ⟨hmem, hvalue⟩ := declares_iff_mem_placedFor.mp hdeclares
    rw [hplaced (r, place) hmem] at hvalue
    cases hvalue
  | some raw =>
    rw [hlast] at hplaced
    obtain ⟨⟨r, place⟩, hmem, hvalue, hgreatest⟩ := hplaced
    refine Or.inr ⟨place, r, raw, ⟨declares_iff_mem_placedFor.mpr ⟨hmem, hvalue⟩, ?_⟩, rfl⟩
    intro other s text hother
    obtain ⟨hin, htext⟩ := declares_iff_mem_placedFor.mp hother
    exact hgreatest (s, other) hin (by rw [htext]; exact Option.some_ne_none text)

/-- The style of an element lacks a property exactly if no rule that matches the element declares
it. Otherwise it has the value of the strongest of these rules, after the variables of the sheet
have been put in and the text has been understood by the kind of the property. -/
theorem find?_styleOf_iff_strongest (sheet : Sheet) (e : Markup.Element)
    (ancestors : List Markup.Element) (property : String) :
    ((sheet.styleOf e ancestors).value.find? property = none ↔
      ∀ place r raw, ¬ Declares sheet e ancestors property place r raw) ∧
    ∀ value, (sheet.styleOf e ancestors).value.find? property = some value ↔
      ∃ place r raw, IsStrongest sheet e ancestors property place r raw ∧
        value = (StyleValue.ofText property
          (substitute (.ofTable sheet.definitions) raw).value).value := by
  rcases strongest_or_none sheet e ancestors property with ⟨hfind, hnone⟩ |
    ⟨place, r, raw, hstrongest, hfind⟩
  · refine ⟨⟨fun _ => hnone, fun _ => hfind⟩, fun value => ⟨fun hvalue => ?_, ?_⟩⟩
    · rw [hfind] at hvalue
      cases hvalue
    · rintro ⟨place, r, raw, hstrongest, _⟩
      exact absurd hstrongest.toDeclares (hnone place r raw)
  · refine ⟨⟨fun hvalue => ?_, fun hnone => ?_⟩, fun value => ⟨fun hvalue => ?_, ?_⟩⟩
    · rw [hfind] at hvalue
      cases hvalue
    · exact absurd hstrongest.toDeclares (hnone place r raw)
    · rw [hfind] at hvalue
      exact ⟨place, r, raw, hstrongest, (Option.some.inj hvalue).symm⟩
    · rintro ⟨place', r', raw', hstrongest', rfl⟩
      rw [hfind, hstrongest.unique hstrongest']

end FrameUI.Style
