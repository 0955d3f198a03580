import FrameUI.Proofs.Style.Heads
import Mathlib.Algebra.Ring.Nat

/-!
# The texts that spell selectors

A word is read as a compound exactly if it spells one, so a selector can be read off its words,
printed and counted without a reader. Main statement: `parse?_iff_words`, which texts are
selectors, that printing one and reading it again gives it back, and that its specificity
counts the characters `#` and `.` of the text and the words that begin with a tag.
-/

namespace FrameUI.Style

/-- A selector as it is printed: its compounds with one space between them. -/
def Selector.spelled (s : Selector) : List Char :=
  List.intercalate [' '] (s.compounds.map Compound.spelled)

def beginsWithName (word : List Char) : Bool := word.head?.any Text.isNameChar

/-! ### Words that spell compounds -/

theorem readIdent?_sound (s name rest : List Char) (h : readIdent? s = some (name, rest)) :
    IsIdent (String.ofList name) ∧ s = name ++ rest := by
  rw [readIdent?] at h
  split at h
  · cases h
  · rename_i hname
    obtain ⟨rfl, rfl⟩ := Prod.mk.inj (Option.some.inj h)
    have hlongest := Text.longestName_nameRun s (by simpa using hname)
    exact ⟨⟨by simpa using hlongest.nonempty, by simpa using hlongest.letters⟩,
      (Text.nameRun_append_afterName s).symm⟩

theorem readQualifier?_sound (s : List Char) (q : SimpleSelector) (rest : List Char)
    (h : readQualifier? s = some (q, rest)) :
    IsIdent q.name ∧ q.isTag = false ∧ s = q.spelled ++ rest := by
  rw [readQualifier?.eq_def] at h
  split at h
  · obtain ⟨⟨name, rest'⟩, hread, heq⟩ := Option.map_eq_some_iff.mp h
    obtain ⟨rfl, rfl⟩ := Prod.mk.inj heq
    obtain ⟨hname, rfl⟩ := readIdent?_sound _ _ _ hread
    exact ⟨hname, rfl, by simp [SimpleSelector.spelled]⟩
  · obtain ⟨⟨name, rest'⟩, hread, heq⟩ := Option.map_eq_some_iff.mp h
    obtain ⟨rfl, rfl⟩ := Prod.mk.inj heq
    obtain ⟨hname, rfl⟩ := readIdent?_sound _ _ _ hread
    exact ⟨hname, rfl, by simp [SimpleSelector.spelled]⟩
  · cases h

theorem readQualifiers_sound (s : List Char) :
    (∀ q ∈ (readQualifiers s).1, IsIdent q.name ∧ q.isTag = false) ∧
      s = (readQualifiers s).1.flatMap SimpleSelector.spelled ++ (readQualifiers s).2 := by
  fun_induction readQualifiers s with
  | case1 s hnone => simp
  | case2 s q rest hsome more ih =>
    obtain ⟨hname, htag, rfl⟩ := readQualifier?_sound s q rest hsome
    obtain ⟨hmore, hrest⟩ := ih
    constructor
    · intro part hpart
      rcases List.mem_cons.mp hpart with rfl | hpart
      · exact ⟨hname, htag⟩
      · exact hmore part hpart
    · rw [List.flatMap_cons, List.append_assoc, ← hrest]

theorem readTag_sound (s : List Char) :
    (∀ part ∈ (readTag s).1, IsIdent part.name) ∧ (readTag s).1.length ≤ 1 ∧
      s = (readTag s).1.flatMap SimpleSelector.spelled ++ (readTag s).2 := by
  rw [readTag]
  split
  · rename_i name rest hread
    obtain ⟨hname, rfl⟩ := readIdent?_sound s name rest hread
    refine ⟨?_, Nat.le_refl 1, by simp [SimpleSelector.spelled]⟩
    intro part hpart
    rw [List.mem_singleton.mp hpart]
    exact hname
  · simp

theorem ofWord?_sound (word : List Char) (c : Compound) (h : Compound.ofWord? word = some c) :
    c.Supported ∧ c.spelled = word := by
  rw [Compound.ofWord?] at h
  split at h
  · rename_i c' hread
    obtain rfl := Option.some.inj h
    obtain ⟨htags, hone, hword⟩ := readTag_sound word
    obtain ⟨hqualifiers, hafter⟩ := readQualifiers_sound (readTag word).2
    simp only [Compound.read?] at hread
    split at hread
    · cases hread
    · rename_i hsome
      obtain ⟨rfl, hrest⟩ := Prod.mk.inj (Option.some.inj hread)
      rw [hrest, List.append_nil] at hafter
      refine ⟨⟨by simpa using hsome, ?_, ?_⟩, ?_⟩
      · intro part hpart
        rcases List.mem_append.mp hpart with hpart | hpart
        · exact htags part hpart
        · exact (hqualifiers part hpart).1
      · intro part hpart
        refine (hqualifiers part ?_).2
        cases hfront : (readTag word).1 with
        | nil =>
          rw [hfront] at hpart
          exact List.mem_of_mem_tail hpart
        | cons tag others =>
          rw [hfront] at hone hpart
          obtain rfl : others = [] := List.length_eq_zero_iff.mp (by simpa using hone)
          exact hpart
      · rw [Compound.spelled, List.flatMap_append, ← hafter, ← hword]
  · cases h

theorem ofWord?_eq_some (word : List Char) (c : Compound) :
    Compound.ofWord? word = some c ↔ c.Supported ∧ c.spelled = word := by
  constructor
  · exact ofWord?_sound word c
  · rintro ⟨hc, rfl⟩
    exact ofWord?_spelled c hc

/-! ### Texts that spell selectors -/

theorem mapM_ofWord?_eq_some (ws : List (List Char)) (cs : List Compound) :
    ws.mapM Compound.ofWord? = some cs ↔
      (∀ c ∈ cs, c.Supported) ∧ cs.map Compound.spelled = ws := by
  constructor
  · intro h
    induction ws generalizing cs with
    | nil =>
      obtain rfl := Option.some.inj h
      simp
    | cons word ws ih =>
      rw [List.mapM_cons] at h
      obtain ⟨c, hc, h⟩ := Option.bind_eq_some_iff.mp h
      obtain ⟨cs', hcs, h⟩ := Option.bind_eq_some_iff.mp h
      obtain rfl := Option.some.inj h
      obtain ⟨hsupported, rfl⟩ := (ofWord?_eq_some word c).mp hc
      obtain ⟨hall, rfl⟩ := ih cs' hcs
      exact ⟨List.forall_mem_cons.mpr ⟨hsupported, hall⟩, rfl⟩
  · rintro ⟨hall, rfl⟩
    exact mapM_ofWord?_spelled cs hall

theorem parse?_eq_some (text : List Char) (selector : Selector) :
    Selector.parse? text = some selector ↔
      Text.words text ≠ [] ∧ (∀ c ∈ selector.compounds, c.Supported) ∧
        selector.compounds.map Compound.spelled = Text.words text := by
  obtain ⟨compounds⟩ := selector
  rw [← mapM_ofWord?_eq_some, Selector.parse?]
  cases hread : (Text.words text).mapM Compound.ofWord? with
  | none => simp
  | some cs =>
    have hwords := ((mapM_ofWord?_eq_some _ _).mp hread).2
    rw [← hwords]
    cases cs with
    | nil => simp
    | cons c cs => simp

theorem exists_compounds (ws : List (List Char))
    (h : ∀ word ∈ ws, ∃ c : Compound, c.Supported ∧ c.spelled = word) :
    ∃ cs : List Compound, (∀ c ∈ cs, c.Supported) ∧ cs.map Compound.spelled = ws := by
  induction ws with
  | nil => exact ⟨[], by simp⟩
  | cons word ws ih =>
    obtain ⟨⟨c, hc, rfl⟩, hrest⟩ := List.forall_mem_cons.mp h
    obtain ⟨cs, hcs, rfl⟩ := ih hrest
    exact ⟨c :: cs, List.forall_mem_cons.mpr ⟨hc, hcs⟩, rfl⟩

theorem isSome_parse?_iff (text : List Char) :
    (Selector.parse? text).isSome = true ↔
      Text.words text ≠ [] ∧
        ∀ word ∈ Text.words text, ∃ c : Compound, c.Supported ∧ c.spelled = word := by
  rw [Option.isSome_iff_exists]
  simp only [parse?_eq_some]
  constructor
  · rintro ⟨selector, hne, hall, hwords⟩
    refine ⟨hne, fun word hword => ?_⟩
    rw [← hwords] at hword
    obtain ⟨c, hc, rfl⟩ := List.mem_map.mp hword
    exact ⟨c, hall c hc, rfl⟩
  · rintro ⟨hne, hall⟩
    obtain ⟨cs, hcs, hwords⟩ := exists_compounds _ hall
    exact ⟨⟨cs⟩, hne, hcs, hwords⟩

theorem words_intercalate (ws : List (List Char)) (h : ∀ word ∈ ws, Text.words word = [word]) :
    Text.words (List.intercalate [' '] ws) = ws := by
  induction ws with
  | nil => rfl
  | cons word ws ih =>
    obtain ⟨hword, hrest⟩ := List.forall_mem_cons.mp h
    cases ws with
    | nil =>
      rw [List.intercalate_singleton]
      exact hword
    | cons next ws =>
      rw [List.intercalate_cons_cons, List.append_assoc, List.singleton_append,
        Text.words_append_blank _ _ ' ' (by decide), hword, ih hrest, List.singleton_append]

theorem words_selectorSpelled (selector : Selector) (h : ∀ c ∈ selector.compounds, c.Supported) :
    Text.words selector.spelled = selector.compounds.map Compound.spelled := by
  refine words_intercalate _ fun word hword => ?_
  obtain ⟨c, hc, rfl⟩ := List.mem_map.mp hword
  exact words_spelled c (h c hc)

/-! ### Counting -/

theorem splitOn_flatten (p : Char → Bool) (s : List Char) :
    (Text.splitOn p s).flatten = s.filter fun c => !p c := by
  induction s with
  | nil => rfl
  | cons c s ih =>
    rw [Text.splitOn]
    by_cases hc : p c = true
    · simp [hc, ih]
    · rw [if_neg hc, List.filter_cons_of_pos (by simpa using hc), ← ih]
      cases hs : Text.splitOn p s with
      | nil => exact absurd hs (Text.splitOn_ne_nil p s)
      | cons part parts => simp

theorem count_words_flatten (d : Char) (hd : Text.isBlank d = false) (text : List Char) :
    (Text.words text).flatten.count d = text.count d := by
  rw [Text.words, List.flatten_filter_not_isEmpty, splitOn_flatten]
  exact List.count_filter (by simp [hd])

namespace Specificity

/-- So many ids, classes and tags. -/
def counted (ids classes tags : Nat) : Specificity := ⟨.ofNat ids, .ofNat classes, .ofNat tags⟩

theorem counted_add (i c t i' c' t' : Nat) :
    counted i c t + counted i' c' t' = counted (i + i') (c + c') (t + t') := by
  rw [counted, counted, counted, UInt32.ofNat_add, UInt32.ofNat_add, UInt32.ofNat_add]
  rfl

theorem foldl_counted {α : Type} (ids classes tags : α → Nat) (l : List α) (i c t : Nat) :
    (l.map fun a => counted (ids a) (classes a) (tags a)).foldl (· + ·) (counted i c t) =
      counted (i + (l.map ids).sum) (c + (l.map classes).sum) (t + (l.map tags).sum) := by
  induction l generalizing i c t with
  | nil => rfl
  | cons a l ih =>
    rw [List.map_cons, List.foldl_cons, counted_add, ih]
    simp only [List.map_cons, List.sum_cons, Nat.add_assoc]

theorem sum_counted {α : Type} (ids classes tags : α → Nat) (l : List α) :
    (l.map fun a => counted (ids a) (classes a) (tags a)).foldl (· + ·) .zero =
      counted (l.map ids).sum (l.map classes).sum (l.map tags).sum := by
  have hall := foldl_counted ids classes tags l 0 0 0
  simp only [Nat.zero_add] at hall
  exact hall

/-- Counts whose weights fit into a word together are told by the words. -/
theorem toNat_counted {ids classes tags : Nat}
    (h : 100 * ids + 10 * classes + tags < UInt32.size) :
    ((counted ids classes tags).ids : Nat) = ids ∧
      ((counted ids classes tags).classes : Nat) = classes ∧
      ((counted ids classes tags).tags : Nat) = tags ∧
      ((counted ids classes tags).score : Nat) = 100 * ids + 10 * classes + tags := by
  have hsize : UInt32.size = 2 ^ 32 := rfl
  have hids : (UInt32.ofNat ids).toNat = ids := UInt32.toNat_ofNat_of_lt' (by omega)
  have hclasses : (UInt32.ofNat classes).toNat = classes := UInt32.toNat_ofNat_of_lt' (by omega)
  have htags : (UInt32.ofNat tags).toNat = tags := UInt32.toNat_ofNat_of_lt' (by omega)
  refine ⟨hids, hclasses, htags, ?_⟩
  show (100 * UInt32.ofNat ids + 10 * UInt32.ofNat classes + UInt32.ofNat tags).toNat = _
  have hhundred : (100 : UInt32).toNat = 100 := rfl
  have hten : (10 : UInt32).toNat = 10 := rfl
  rw [UInt32.toNat_add, UInt32.toNat_add, UInt32.toNat_mul, UInt32.toNat_mul, hids, hclasses,
    htags, hhundred, hten]
  omega

end Specificity

theorem count_eq_zero_of_ident (name : String) (h : IsIdent name) (d : Char)
    (hd : Text.isNameChar d = false) : name.toList.count d = 0 := by
  rw [List.count_eq_zero]
  intro hmem
  rw [h.letters d hmem] at hd
  cases hd

/-- A condition counts for what its first character says it is. -/
theorem specificity_of_ident (part : SimpleSelector) (h : IsIdent part.name) :
    part.specificity =
      .counted (part.spelled.count '#') (part.spelled.count '.') part.isTag.toNat := by
  have hhash := count_eq_zero_of_ident part.name h '#' (by decide)
  have hdot := count_eq_zero_of_ident part.name h '.' (by decide)
  cases part with
  | tag name =>
    rw [SimpleSelector.name] at hhash hdot
    rw [SimpleSelector.spelled, hhash, hdot]
    rfl
  | className name =>
    rw [SimpleSelector.name] at hhash hdot
    rw [SimpleSelector.spelled, List.count_cons_of_ne (by decide), List.count_cons_self, hhash,
      hdot]
    rfl
  | id name =>
    rw [SimpleSelector.name] at hhash hdot
    rw [SimpleSelector.spelled, List.count_cons_self, List.count_cons_of_ne (by decide), hhash,
      hdot]
    rfl

theorem beginsWithName_spelled (part : SimpleSelector) (h : IsIdent part.name)
    (rest : List Char) : beginsWithName (part.spelled ++ rest) = part.isTag := by
  cases part with
  | tag name =>
    cases hname : name.toList with
    | nil => exact absurd hname h.nonempty
    | cons c letters =>
      have hc : Text.isNameChar c = true := h.letters c (by simp [SimpleSelector.name, hname])
      simp [beginsWithName, SimpleSelector.spelled, SimpleSelector.isTag, hname, hc]
  | className name => rfl
  | id name => rfl

theorem Compound.Supported.specificity_eq {c : Compound} (h : c.Supported) :
    c.specificity =
      .counted (c.spelled.count '#') (c.spelled.count '.') (beginsWithName c.spelled).toNat := by
  obtain ⟨parts⟩ := c
  have hparts : parts.map SimpleSelector.specificity = parts.map fun part =>
      .counted (part.spelled.count '#') (part.spelled.count '.') part.isTag.toNat :=
    List.map_congr_left fun part hpart => specificity_of_ident part (h.names part hpart)
  rw [Compound.specificity, hparts, Specificity.sum_counted, Compound.spelled, List.count_flatMap,
    List.count_flatMap]
  -- Only the first part of a compound can be a tag.
  refine congrArg _ ?_
  cases parts with
  | nil => exact absurd rfl h.nonempty
  | cons part parts =>
    have hnone : (parts.map fun p => p.isTag.toNat).sum = 0 := by
      rw [List.sum_eq_zero_iff_forall_eq_nat]
      intro n hn
      obtain ⟨p, hp, rfl⟩ := List.mem_map.mp hn
      rw [h.tagFirst p hp]
      rfl
    rw [List.map_cons, List.sum_cons, hnone, List.flatMap_cons,
      beginsWithName_spelled part (h.names part List.mem_cons_self)]
    rfl

theorem sum_toNat {α : Type} (p : α → Bool) (l : List α) :
    (l.map fun a => (p a).toNat).sum = l.countP p := by
  induction l with
  | nil => rfl
  | cons a l ih =>
    rw [List.map_cons, List.sum_cons, ih, List.countP_cons]
    cases p a <;> simp [Nat.add_comm]

theorem specificity_eq_counts (selector : Selector)
    (h : ∀ c ∈ selector.compounds, c.Supported) :
    selector.specificity =
      .counted ((selector.compounds.map Compound.spelled).flatten.count '#')
        ((selector.compounds.map Compound.spelled).flatten.count '.')
        ((selector.compounds.map Compound.spelled).countP beginsWithName) := by
  have hcompounds : selector.compounds.map Compound.specificity = selector.compounds.map fun c =>
      .counted (c.spelled.count '#') (c.spelled.count '.') (beginsWithName c.spelled).toNat :=
    List.map_congr_left fun c hc => (h c hc).specificity_eq
  rw [Selector.specificity, hcompounds, Specificity.sum_counted]
  simp only [List.count_flatten, List.map_map, List.countP_map, Function.comp_def,
    sum_toNat fun c : Compound => beginsWithName c.spelled]

/-! ### Selectors and their words -/

/-- A text is a selector exactly if it has words and each spells a compound. The selector is then
the list of these compounds, it can be printed and read again, and its specificity is a count of
characters and words. The counts wrap around, but not as long as their score fits into a word. -/
theorem parse?_iff_words (text : List Char) :
    ((Selector.parse? text).isSome = true ↔
      Text.words text ≠ [] ∧
        ∀ word ∈ Text.words text, ∃ c : Compound, c.Supported ∧ c.spelled = word) ∧
    ∀ selector, Selector.parse? text = some selector →
      (∀ c ∈ selector.compounds, c.Supported) ∧
      selector.compounds.map Compound.spelled = Text.words text ∧
      Selector.parse? selector.spelled = some selector ∧
      let ids := text.count '#'
      let classes := text.count '.'
      let tags := (Text.words text).countP beginsWithName
      let s := selector.specificity
      s = .counted ids classes tags ∧
        (100 * ids + 10 * classes + tags < UInt32.size →
          (s.ids : Nat) = ids ∧ (s.classes : Nat) = classes ∧ (s.tags : Nat) = tags ∧
            (s.score : Nat) = 100 * ids + 10 * classes + tags) := by
  refine ⟨isSome_parse?_iff text, ?_⟩
  intro selector hread
  obtain ⟨hne, hall, hwords⟩ := (parse?_eq_some text selector).mp hread
  have hcounts := specificity_eq_counts selector hall
  rw [hwords, count_words_flatten '#' (by decide), count_words_flatten '.' (by decide)] at hcounts
  refine ⟨hall, hwords, ?_, hcounts, ?_⟩
  · have hspelled := words_selectorSpelled selector hall
    refine (parse?_eq_some _ selector).mpr ⟨?_, hall, hspelled.symm⟩
    rw [hspelled, hwords]
    exact hne
  · intro hfits
    rw [hcounts]
    exact Specificity.toNat_counted hfits

end FrameUI.Style
