import FrameUI.Style.Selector
import Mathlib.Data.List.Forall2
import Mathlib.Data.List.NodupEquivFin

/-!
# Matching selectors

The matcher goes outwards and gives each compound the nearest ancestor that is left. An ancestor
taken in this way could only have served a compound further out, which finds another one or need
not: if the compounds can be placed at all, then so that the first takes the nearest. Main
statement: `matchesElement_iff_places`, that any placement in order will do.
-/

namespace FrameUI.Style

/-! ### Placements -/

/-- Compounds can be placed, in order, on some of the elements. -/
abbrev Placed (cs : List Compound) (elements : List Markup.Element) : Prop :=
  List.SublistForall₂ (fun c a => c.matchesElement a = true) cs elements

variable {c : Compound} {cs : List Compound} {a : Markup.Element} {as : List Markup.Element}

theorem Placed.tail (h : Placed (c :: cs) as) : Placed cs as := by
  induction as with
  | nil => cases h
  | cons a as ih =>
    cases h with
    | cons _ hrest => exact .cons_right hrest
    | cons_right hrest => exact .cons_right (ih hrest)

/-- The nearest element that matches the first compound can be given to it. -/
theorem Placed.nearest (h : Placed (c :: cs) (a :: as)) : Placed cs as := by
  cases h with
  | cons _ hrest => exact hrest
  | cons_right hrest => exact Placed.tail hrest

theorem Placed.skip (h : Placed (c :: cs) (a :: as)) (hne : ¬ c.matchesElement a = true) :
    Placed (c :: cs) as := by
  cases h with
  | cons hmatch _ => exact absurd hmatch hne
  | cons_right hrest => exact hrest

theorem matchAncestors_iff_placed (cs : List Compound) (as : List Markup.Element) :
    matchAncestors cs as = true ↔ Placed cs as := by
  fun_induction matchAncestors cs as with
  | case1 as => simp [List.SublistForall₂.nil]
  | case2 c cs =>
    simp only [Bool.false_eq_true, false_iff]
    intro h
    cases h
  | case3 c cs a as hmatch ih =>
    rw [ih]
    exact ⟨fun h => .cons hmatch h, Placed.nearest⟩
  | case4 c cs a as hne ih =>
    rw [ih]
    exact ⟨fun h => .cons_right h, fun h => h.skip hne⟩

theorem placed_reverse (cs : List Compound) (as : List Markup.Element) :
    Placed cs.reverse as.reverse ↔ Placed cs as := by
  have hback : ∀ (cs : List Compound) (as : List Markup.Element),
      Placed cs as → Placed cs.reverse as.reverse := by
    intro cs as h
    obtain ⟨chosen, hmatch, hsub⟩ := List.sublistForall₂_iff.mp h
    exact List.sublistForall₂_iff.mpr
      ⟨chosen.reverse, List.rel_reverse hmatch, hsub.reverse⟩
  constructor
  · intro h
    have hagain := hback _ _ h
    rwa [List.reverse_reverse, List.reverse_reverse] at hagain
  · exact hback cs as

theorem Placed.mono {more : List Markup.Element} (h : Placed cs as) (hsub : as.Sublist more) :
    Placed cs more := by
  obtain ⟨chosen, hmatch, hchosen⟩ := List.sublistForall₂_iff.mp h
  exact List.sublistForall₂_iff.mpr ⟨chosen, hmatch, hchosen.trans hsub⟩

/-- A placement gives every compound an index, and the indices grow. -/
theorem placed_iff_places (cs : List Compound) (as : List Markup.Element) :
    Placed cs as ↔ ∃ place : Fin cs.length → Fin as.length, StrictMono place ∧
      ∀ j, (cs.get j).matchesElement (as.get (place j)) = true := by
  refine List.sublistForall₂_iff.trans ⟨?_, ?_⟩
  · rintro ⟨chosen, hmatch, hsub⟩
    obtain ⟨hlength, hget⟩ := List.forall₂_iff_get.mp hmatch
    obtain ⟨index, hindex⟩ := List.sublist_iff_exists_fin_orderEmbedding_get_eq.mp hsub
    refine ⟨fun j => index (Fin.cast hlength j), fun i j hij => index.strictMono hij, ?_⟩
    intro j
    rw [← hindex]
    exact hget j j.isLt (hlength ▸ j.isLt)
  · rintro ⟨place, hmono, hmatch⟩
    refine ⟨List.ofFn fun j => as.get (place j), ?_, ?_⟩
    · refine List.forall₂_iff_get.mpr ⟨by simp, ?_⟩
      intro i hi hi'
      simpa using hmatch ⟨i, hi⟩
    · refine List.sublist_iff_exists_fin_orderEmbedding_get_eq.mpr
        ⟨OrderEmbedding.ofStrictMono (fun j => place (Fin.cast (by simp) j)) ?_, ?_⟩
      · exact fun i j hij => hmono hij
      · intro j
        rw [List.get_ofFn]
        rfl

/-! ### Selectors -/

theorem matchesElement_concat (outer : List Compound) (last : Compound) (e : Markup.Element)
    (ancestors : List Markup.Element) :
    Selector.matchesElement ⟨outer ++ [last]⟩ e ancestors = true ↔
      last.matchesElement e = true ∧ Placed outer ancestors := by
  rw [Selector.matchesElement, List.reverse_concat]
  simp only [Bool.and_eq_true]
  rw [matchAncestors_iff_placed, placed_reverse]

/-- A selector matches exactly if its last compound matches the element and the compounds before
it match ancestors at growing indices; so further ancestors, wherever they stand, do no harm. -/
theorem matchesElement_iff_places (s : Selector) (e : Markup.Element)
    (ancestors : List Markup.Element) :
    (s.matchesElement e ancestors = true ↔
      ∃ outer last, s.compounds = outer ++ [last] ∧ last.matchesElement e = true ∧
        ∃ place : Fin outer.length → Fin ancestors.length, StrictMono place ∧
          ∀ j, (outer.get j).matchesElement (ancestors.get (place j)) = true) ∧
      ∀ more, ancestors.Sublist more → s.matchesElement e ancestors = true →
        s.matchesElement e more = true := by
  obtain ⟨compounds⟩ := s
  rcases List.eq_nil_or_concat' compounds with rfl | ⟨outer, last, rfl⟩
  · have hnone : ∀ as, ¬ Selector.matchesElement ⟨[]⟩ e as = true := fun _ => Bool.false_ne_true
    constructor
    · refine ⟨fun h => absurd h (hnone _), ?_⟩
      rintro ⟨outer, last, heq, _⟩
      exact absurd heq.symm (List.append_ne_nil_of_right_ne_nil _ (List.cons_ne_nil _ _))
    · exact fun _ _ h => absurd h (hnone _)
  · simp only [matchesElement_concat]
    constructor
    · rw [placed_iff_places]
      constructor
      · rintro ⟨hlast, hplaces⟩
        exact ⟨outer, last, rfl, hlast, hplaces⟩
      · rintro ⟨outer', last', heq, hlast, hplaces⟩
        obtain ⟨rfl, hsame⟩ := List.append_inj' heq rfl
        obtain rfl := List.singleton_inj.mp hsame
        exact ⟨hlast, hplaces⟩
    · rintro more hsub ⟨hlast, hplaced⟩
      exact ⟨hlast, hplaced.mono hsub⟩

end FrameUI.Style
