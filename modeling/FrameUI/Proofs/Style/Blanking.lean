import FrameUI.Proofs.Style.Fillers

/-!
# Skipped and blanked comments

Between tokens comments are skipped together with the white space around them; inside selectors
each is replaced by a space. The two find the same comments: a text is skipped as a whole exactly
when white space is all that is left of it once its comments are blanked. Main statement:
`afterTrivia_blankComments`, which also says what either leaves alone.
-/

namespace FrameUI.Style

/-- The characters that open a comment. -/
def commentStart : List Char := ['/', '*']

/-- A text that begins neither with white space nor with a comment. -/
structure BeginsNoTrivia (s : List Char) : Prop where
  space : Text.StopsAt isSpace s
  comment : ¬ commentStart <+: s

theorem commentStart_prefix_iff (c : Char) (r : List Char) :
    commentStart <+: c :: r ↔ c = '/' ∧ ∃ r', r = '*' :: r' := by
  constructor
  · rintro ⟨r', h⟩
    obtain ⟨rfl, rfl⟩ := List.cons.inj h
    exact ⟨rfl, r', rfl⟩
  · rintro ⟨rfl, r', rfl⟩
    exact ⟨r', rfl⟩

/-- Where no comment begins, none is met by the readers. -/
theorem not_comment_of_not_start {c : Char} {r : List Char} (h : ¬ commentStart <+: c :: r) :
    ∀ r', c = '/' → r = '*' :: r' → False :=
  fun r' hc hr => h ((commentStart_prefix_iff c r).2 ⟨hc, r', hr⟩)

/-! ### Skipping -/

theorem afterTrivia_of_beginsNoTrivia (s : List Char) (h : BeginsNoTrivia s) :
    afterTrivia s = s := by
  cases s with
  | nil => rw [afterTrivia]
  | cons c r =>
    have hspace : isSpace c = false := Text.head_of_stopsAt isSpace c r h.space
    exact afterTrivia_cons hspace (not_comment_of_not_start h.comment)

theorem beginsNoTrivia_afterTrivia (s : List Char) : BeginsNoTrivia (afterTrivia s) := by
  have hboth :
      (∀ s, BeginsNoTrivia (afterTrivia s)) ∧ ∀ s, BeginsNoTrivia (afterCommentText s) := by
    refine afterTrivia.mutual_induct (fun s => BeginsNoTrivia (afterTrivia s))
      (fun s => BeginsNoTrivia (afterCommentText s)) ?_ ?_ ?_ ?_ ?_ ?_ ?_
    -- A comment opens, a space is skipped, a token is met, or the text is over.
    · intro r ih
      rwa [afterTrivia]
    · intro c r _ hc ih
      rwa [afterTrivia_space c r hc]
    · intro c r hne hc
      have hspace := Bool.eq_false_iff.2 hc
      rw [afterTrivia_cons hspace hne]
      refine ⟨Text.stopsAt_cons isSpace c r hspace, fun hstart => ?_⟩
      obtain ⟨hslash, r', hr⟩ := (commentStart_prefix_iff c r).1 hstart
      exact hne r' hslash hr
    · rw [afterTrivia]
      exact ⟨Text.stopsAt_nil isSpace, by simp [commentStart]⟩
    -- The comment closes, goes on, or is never closed.
    · intro r ih
      rwa [afterCommentText]
    · intro c r hne ih
      rwa [afterCommentText_cons hne]
    · rw [afterCommentText]
      exact ⟨Text.stopsAt_nil isSpace, by simp [commentStart]⟩
  exact hboth.1 s

theorem afterTrivia_eq_self_iff (s : List Char) : afterTrivia s = s ↔ BeginsNoTrivia s := by
  constructor
  · intro h
    rw [← h]
    exact beginsNoTrivia_afterTrivia s
  · exact afterTrivia_of_beginsNoTrivia s

/-! ### Blanking -/

/-- A text without comments is not changed. -/
theorem blankComments_of_not_infix (s : List Char) (h : ¬ commentStart <:+: s) :
    blankComments s = s := by
  induction s with
  | nil => rw [blankComments]
  | cons c r ih =>
    rw [List.infix_cons_iff, not_or] at h
    rw [blankComments_cons (not_comment_of_not_start h.1), ih h.2]

/-- Only a star of the text can stand at the front of the blanked text. -/
theorem exists_star_of_blankComments {r t : List Char} (h : blankComments r = '*' :: t) :
    ∃ r', r = '*' :: r' := by
  unfold blankComments at h
  split at h
  · exact absurd (List.cons.inj h).1 (by decide)
  · obtain ⟨rfl, _⟩ := List.cons.inj h
    exact ⟨_, rfl⟩
  · cases h

theorem not_infix_blankComments (s : List Char) : ¬ commentStart <:+: blankComments s := by
  have hboth : (∀ s, ¬ commentStart <:+: blankComments s) ∧
      ∀ s, ¬ commentStart <:+: dropComment s := by
    refine blankComments.mutual_induct (fun s => ¬ commentStart <:+: blankComments s)
      (fun s => ¬ commentStart <:+: dropComment s) ?_ ?_ ?_ ?_ ?_ ?_
    · intro r ih
      rw [blankComments, List.infix_cons_iff, commentStart_prefix_iff]
      rintro (⟨hslash, _⟩ | hrest)
      · exact absurd hslash (by decide)
      · exact ih hrest
    -- A slash that opens no comment is not followed by a star after blanking either.
    · intro c r hne ih
      rw [blankComments_cons hne, List.infix_cons_iff, commentStart_prefix_iff]
      rintro (⟨hslash, t, ht⟩ | hrest)
      · obtain ⟨r', hr⟩ := exists_star_of_blankComments ht
        exact hne r' hslash hr
      · exact ih hrest
    · rw [blankComments]
      simp [commentStart]
    · intro r ih
      rwa [dropComment]
    · intro c r hne ih
      rwa [dropComment_cons hne]
    · rw [dropComment]
      simp [commentStart]
  exact hboth.1 s

theorem blankComments_eq_self_iff (s : List Char) :
    blankComments s = s ↔ ¬ commentStart <:+: s := by
  constructor
  · intro h
    rw [← h]
    exact not_infix_blankComments s
  · exact blankComments_of_not_infix s

/-! ### Both -/

/-- Before what skipping leaves, blanking leaves white space alone. -/
theorem exists_spaces_blankComments (s : List Char) :
    ∃ spaces, (∀ c ∈ spaces, isSpace c = true) ∧
      blankComments s = spaces ++ blankComments (afterTrivia s) := by
  have hboth :
      (∀ s, ∃ spaces, (∀ c ∈ spaces, isSpace c = true) ∧
        blankComments s = spaces ++ blankComments (afterTrivia s)) ∧
      ∀ s, ∃ spaces, (∀ c ∈ spaces, isSpace c = true) ∧
        dropComment s = spaces ++ blankComments (afterCommentText s) := by
    refine afterTrivia.mutual_induct
      (fun s => ∃ spaces, (∀ c ∈ spaces, isSpace c = true) ∧
        blankComments s = spaces ++ blankComments (afterTrivia s))
      (fun s => ∃ spaces, (∀ c ∈ spaces, isSpace c = true) ∧
        dropComment s = spaces ++ blankComments (afterCommentText s)) ?_ ?_ ?_ ?_ ?_ ?_ ?_
    · rintro r ⟨spaces, hspaces, hdrop⟩
      refine ⟨' ' :: spaces, List.forall_mem_cons.2 ⟨by decide, hspaces⟩, ?_⟩
      rw [blankComments, afterTrivia, hdrop, List.cons_append]
    · rintro c r hne hc ⟨spaces, hspaces, hblank⟩
      refine ⟨c :: spaces, List.forall_mem_cons.2 ⟨hc, hspaces⟩, ?_⟩
      rw [blankComments_cons hne, afterTrivia_space c r hc, hblank, List.cons_append]
    · intro c r hne hc
      refine ⟨[], List.forall_mem_nil _, ?_⟩
      rw [afterTrivia_cons (Bool.eq_false_iff.2 hc) hne, List.nil_append]
    · refine ⟨[], List.forall_mem_nil _, ?_⟩
      rw [afterTrivia, List.nil_append]
    · rintro r ⟨spaces, hspaces, hblank⟩
      refine ⟨spaces, hspaces, ?_⟩
      rw [dropComment, afterCommentText, hblank]
    · rintro c r hne ⟨spaces, hspaces, hdrop⟩
      refine ⟨spaces, hspaces, ?_⟩
      rw [dropComment_cons hne, afterCommentText_cons hne, hdrop]
    · refine ⟨[], List.forall_mem_nil _, ?_⟩
      rw [dropComment, afterCommentText, blankComments, List.nil_append]
  exact hboth.1 s

theorem afterTrivia_eq_nil_iff (s : List Char) :
    afterTrivia s = [] ↔ ∀ c ∈ blankComments s, isSpace c = true := by
  obtain ⟨spaces, hspaces, hblank⟩ := exists_spaces_blankComments s
  have hbegins := beginsNoTrivia_afterTrivia s
  rw [hblank]
  cases hafter : afterTrivia s with
  | nil =>
    rw [blankComments, List.append_nil]
    exact iff_of_true rfl hspaces
  | cons c r =>
    -- What is left begins with a character that is no space and stays where it is.
    rw [hafter] at hbegins
    have hspace : isSpace c = false := Text.head_of_stopsAt isSpace c r hbegins.space
    rw [blankComments_cons (not_comment_of_not_start hbegins.comment)]
    refine iff_of_false (List.cons_ne_nil c r) fun hall => ?_
    rw [hall c (by simp)] at hspace
    cases hspace

/-- Skipping and blanking treat the same comments. A text is skipped to its end exactly when
nothing but white space is left of it with its comments blanked. Skipping leaves an end of the
text that begins with no trivia, blanking leaves no comment, and each of them changes nothing but
the texts for which that does not hold already. -/
theorem afterTrivia_blankComments (s : List Char) :
    (afterTrivia s = [] ↔ ∀ c ∈ blankComments s, isSpace c = true) ∧
      (afterTrivia s <:+ s ∧ BeginsNoTrivia (afterTrivia s) ∧
        (afterTrivia s = s ↔ BeginsNoTrivia s) ∧ afterTrivia (afterTrivia s) = afterTrivia s) ∧
      ¬ commentStart <:+: blankComments s ∧
        (blankComments s = s ↔ ¬ commentStart <:+: s) ∧
        blankComments (blankComments s) = blankComments s := by
  have hbegins := beginsNoTrivia_afterTrivia s
  have hfree := not_infix_blankComments s
  refine ⟨afterTrivia_eq_nil_iff s, ⟨afterTrivia_suffix s, hbegins, ?_, ?_⟩, hfree, ?_, ?_⟩
  · exact afterTrivia_eq_self_iff s
  · exact afterTrivia_of_beginsNoTrivia _ hbegins
  · exact blankComments_eq_self_iff s
  · exact blankComments_of_not_infix _ hfree

/-- The slash that opens a comment does not close it. -/
example : afterTrivia "/*/ */x".toList = ['x'] ∧ blankComments "/*/ */x".toList = [' ', 'x'] := by
  decide

end FrameUI.Style
