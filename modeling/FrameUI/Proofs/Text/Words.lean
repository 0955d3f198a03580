import FrameUI.Proofs.Text.Spans

/-!
# Words

The words of a text are what blanks leave of it. A blank splits the words of a text into
those before and those after it, so blanks around a text, and trimming, do not matter.
-/

namespace FrameUI.Text

theorem splitOn_ne_nil (p : Char → Bool) (s : List Char) : splitOn p s ≠ [] := by
  cases s with
  | nil => exact List.cons_ne_nil _ _
  | cons c s =>
    rw [splitOn]
    split
    · exact List.cons_ne_nil _ _
    · split
      · exact List.cons_ne_nil _ _
      · exact List.cons_ne_nil _ _

theorem splitOn_append (p : Char → Bool) (s t : List Char) (c : Char) (h : p c = true) :
    splitOn p (s ++ c :: t) = splitOn p s ++ splitOn p t := by
  induction s with
  | nil => simp [splitOn, h]
  | cons d s ih =>
    rw [List.cons_append, splitOn, splitOn]
    by_cases hd : p d = true
    · rw [if_pos hd, if_pos hd, ih, List.cons_append]
    · rw [if_neg hd, if_neg hd, ih]
      cases hs : splitOn p s with
      | nil => exact absurd hs (splitOn_ne_nil p s)
      | cons part parts => rfl

theorem splitOn_of_none (p : Char → Bool) (s : List Char) (h : ∀ c ∈ s, p c = false) :
    splitOn p s = [s] := by
  induction s with
  | nil => rfl
  | cons c s ih =>
    have hc := h c List.mem_cons_self
    have hs := ih fun d hd => h d (List.mem_cons_of_mem c hd)
    rw [splitOn, if_neg (by simp [hc]), hs]

theorem mem_splitOn (p : Char → Bool) (s : List Char) (c : Char) (h : c ∈ s) :
    p c = true ∨ ∃ part ∈ splitOn p s, c ∈ part := by
  induction s with
  | nil => exact absurd h List.not_mem_nil
  | cons d s ih =>
    rw [splitOn]
    by_cases hd : p d = true
    · rw [if_pos hd]
      rcases List.mem_cons.mp h with rfl | h
      · exact Or.inl hd
      · exact (ih h).imp_right fun ⟨part, hpart, hc⟩ => ⟨part, List.mem_cons_of_mem _ hpart, hc⟩
    · rw [if_neg hd]
      cases hparts : splitOn p s with
      | nil =>
        rw [hparts] at ih
        rcases List.mem_cons.mp h with rfl | h
        · exact Or.inr ⟨_, List.mem_cons_self, List.mem_cons_self⟩
        · rcases ih h with hp | ⟨part, hpart, _⟩
          · exact Or.inl hp
          · exact absurd hpart List.not_mem_nil
      | cons first parts =>
        rw [hparts] at ih
        rcases List.mem_cons.mp h with rfl | h
        · exact Or.inr ⟨_, List.mem_cons_self, List.mem_cons_self⟩
        · rcases ih h with hp | ⟨part, hpart, hc⟩
          · exact Or.inl hp
          · rcases List.mem_cons.mp hpart with rfl | hpart
            · exact Or.inr ⟨_, List.mem_cons_self, List.mem_cons_of_mem d hc⟩
            · exact Or.inr ⟨part, List.mem_cons_of_mem _ hpart, hc⟩

theorem words_append_blank (s t : List Char) (c : Char) (h : isBlank c = true) :
    words (s ++ c :: t) = words s ++ words t := by
  simp only [words, splitOn_append isBlank s t c h, List.filter_append]

theorem words_nil : words [] = [] := rfl

theorem words_of_word (s : List Char) (hne : s ≠ []) (h : ∀ c ∈ s, isBlank c = false) :
    words s = [s] := by
  rw [words, splitOn_of_none isBlank s h, List.filter_cons, if_pos (by simp [hne])]
  rfl

theorem words_blanks_append (blanks s : List Char) (h : AllBlank blanks) :
    words (blanks ++ s) = words s := by
  induction blanks with
  | nil => rfl
  | cons c blanks ih =>
    have hc := h c List.mem_cons_self
    have hrest : AllBlank blanks := fun d hd => h d (List.mem_cons_of_mem c hd)
    have hsplit := words_append_blank [] (blanks ++ s) c hc
    rw [List.nil_append, words_nil, List.nil_append] at hsplit
    rw [List.cons_append, hsplit, ih hrest]

theorem words_append_blanks (s blanks : List Char) (h : AllBlank blanks) :
    words (s ++ blanks) = words s := by
  cases blanks with
  | nil => rw [List.append_nil]
  | cons c blanks =>
    have hrest : AllBlank blanks := fun d hd => h d (List.mem_cons_of_mem c hd)
    have hnone := words_blanks_append blanks [] hrest
    rw [List.append_nil] at hnone
    rw [words_append_blank s blanks c (h c List.mem_cons_self), hnone, words_nil,
      List.append_nil]

theorem exists_blanks_trimEnd (s : List Char) :
    ∃ blanks, AllBlank blanks ∧ s = trimEnd s ++ blanks := by
  obtain ⟨blanks, hblanks, hs⟩ := exists_blanks_trimStart s.reverse
  refine ⟨blanks.reverse, ?_, ?_⟩
  · intro c hc
    exact hblanks c (List.mem_reverse.mp hc)
  · have hback := congrArg List.reverse hs
    rw [List.reverse_reverse, List.reverse_append] at hback
    exact hback

/-- A text is what trimming leaves of it between blanks. -/
theorem exists_blanks_trim (s : List Char) :
    ∃ before after, AllBlank before ∧ AllBlank after ∧ s = before ++ (trim s ++ after) := by
  obtain ⟨before, hbefore, hs⟩ := exists_blanks_trimStart s
  obtain ⟨after, hafter, ht⟩ := exists_blanks_trimEnd (trimStart s)
  refine ⟨before, after, hbefore, hafter, ?_⟩
  rw [trim, ← ht]
  exact hs

theorem mem_trim_or_blank {s : List Char} {c : Char} (h : c ∈ s) :
    isBlank c = true ∨ c ∈ trim s := by
  obtain ⟨before, after, hbefore, hafter, hs⟩ := exists_blanks_trim s
  rw [hs] at h
  rcases List.mem_append.mp h with h | h
  · exact Or.inl (hbefore c h)
  · rcases List.mem_append.mp h with h | h
    · exact Or.inr h
    · exact Or.inl (hafter c h)

theorem trim_blanks_append (blanks s : List Char) (h : AllBlank blanks) :
    trim (blanks ++ s) = trim s := by
  rw [trim, trimStart_blanks_append blanks s h, trim]

theorem trim_append_blanks (s blanks : List Char) (h : AllBlank blanks) :
    trim (s ++ blanks) = trim s := by
  rw [trim, trimStart, List.dropWhile_append]
  split
  · rename_i hempty
    have hall := trimStart_of_allBlank blanks h
    have hnone : trimStart s = [] := List.isEmpty_iff.mp hempty
    rw [trimStart] at hall
    rw [hall, trim, hnone]
  · exact trimEnd_append_blanks _ blanks h

theorem words_trim (s : List Char) : words (trim s) = words s := by
  obtain ⟨front, hfront, hs⟩ := exists_blanks_trimStart s
  obtain ⟨back, hback, hstart⟩ := exists_blanks_trimEnd (trimStart s)
  calc words (trim s)
      = words (trimEnd (trimStart s) ++ back) := (words_append_blanks _ back hback).symm
    _ = words (trimStart s) := (congrArg words hstart).symm
    _ = words (front ++ trimStart s) := (words_blanks_append front _ hfront).symm
    _ = words s := (congrArg words hs).symm

end FrameUI.Text
