import FrameUI.Proofs.Style.AtRules

/-!
# Fillers

A blank and a comment are fillers: where trivia are skipped, and in selectors once their comments
are blanked, one leaves what the other leaves. Whether a text in front of a filler ends inside
a comment decides if the filler is met as one. Main statements: `afterTrivia_append` and
`blankComments_append_of_closed` for fillers behind texts that close their comments, and
`trim_blankComments_trim`, that a selector may be trimmed before its comments are blanked.
-/

namespace FrameUI.Style

/-! ### Open comments -/

mutual

/-- Whether a text ends inside a comment, if comments stand among certain characters in it and
nothing counts behind the first other one. -/
def endsInComment (among : Char → Bool) : List Char → Bool
  | '/' :: '*' :: r => endsInside among r
  | c :: r => among c && endsInComment among r
  | [] => false

/-- Whether a text ends inside a comment, if it begins inside one. -/
def endsInside (among : Char → Bool) : List Char → Bool
  | '*' :: '/' :: r => endsInComment among r
  | _ :: r => endsInside among r
  | [] => true

end

section Equations

variable {among : Char → Bool} {c : Char} {r : List Char}

theorem endsInComment_cons (h : ∀ r', c = '/' → r = '*' :: r' → False) :
    endsInComment among (c :: r) = (among c && endsInComment among r) := by
  rw [endsInComment]
  exact h

theorem endsInside_cons (h : ∀ r', c = '*' → r = '/' :: r' → False) :
    endsInside among (c :: r) = endsInside among r := by
  rw [endsInside]
  exact h

theorem afterTrivia_cons (hspace : isSpace c = false)
    (h : ∀ r', c = '/' → r = '*' :: r' → False) : afterTrivia (c :: r) = c :: r := by
  rw [afterTrivia]
  · rw [if_neg (by simp [hspace])]
  · exact h

theorem afterCommentText_cons (h : ∀ r', c = '*' → r = '/' :: r' → False) :
    afterCommentText (c :: r) = afterCommentText r := by
  rw [afterCommentText]
  exact h

theorem blankComments_cons (h : ∀ r', c = '/' → r = '*' :: r' → False) :
    blankComments (c :: r) = c :: blankComments r := by
  rw [blankComments]
  exact h

theorem blankComments_nil : blankComments [] = [] := by
  rw [blankComments]

theorem dropComment_cons (h : ∀ r', c = '*' → r = '/' :: r' → False) :
    dropComment (c :: r) = dropComment r := by
  rw [dropComment]
  exact h

end Equations

/-- No comment begins across the end of a text before which none began. -/
theorem not_comment_of_append {s r x : List Char} {c : Char}
    (hne : ∀ r', c = '/' → s = '*' :: r' → False) (hx : Text.StopsAt (· == '*') x) (hc : c = '/')
    (h : s ++ x = '*' :: r) : False := by
  cases s with
  | nil =>
    rw [List.nil_append] at h
    rw [h] at hx
    exact absurd (Text.head_of_stopsAt _ '*' r hx) (by decide)
  | cons d s =>
    obtain ⟨rfl, _⟩ := List.cons.inj h
    exact hne s hc rfl

/-- No comment ends across the end of a text that closes it. -/
theorem not_end_of_append {among : Char → Bool} {s r x : List Char} {c : Char}
    (hne : ∀ r', c = '*' → s = '/' :: r' → False) (hclosed : endsInside among s = false)
    (hc : c = '*') (h : s ++ x = '/' :: r) : False := by
  cases s with
  | nil =>
    rw [endsInside] at hclosed
    cases hclosed
  | cons d s =>
    obtain ⟨rfl, _⟩ := List.cons.inj h
    exact hne s hc rfl

/-- No comment ends across the end of a text inside which none ended. -/
theorem not_end_of_ends {s r x : List Char} {c : Char}
    (hne : ∀ r', c = '*' → s = '/' :: r' → False)
    (hx : Text.StopsAt (· == '/') x ∨ (c :: s).getLast? ≠ some '*') (hc : c = '*')
    (h : s ++ x = '/' :: r) : False := by
  cases s with
  | nil =>
    rw [List.nil_append] at h
    subst h hc
    rcases hx with hstop | hlast
    · exact absurd (Text.head_of_stopsAt _ '/' r hstop) (by decide)
    · exact hlast rfl
  | cons d s =>
    obtain ⟨rfl, _⟩ := List.cons.inj h
    exact hne s hc rfl

/-! ### Trivia -/

/-- What is left of a text without its trivia and another one behind it. -/
def leftBefore (x : List Char) : List Char → List Char
  | [] => afterTrivia x
  | c :: r => c :: (r ++ x)

/-- Behind trivia that are complete the reader goes on as it would without them. -/
theorem afterTrivia_append_of_closed (s x : List Char) (h : endsInComment isSpace s = false)
    (hx : Text.StopsAt (· == '*') x) : afterTrivia (s ++ x) = leftBefore x (afterTrivia s) := by
  have hboth :
      (∀ s, endsInComment isSpace s = false →
        afterTrivia (s ++ x) = leftBefore x (afterTrivia s)) ∧
      ∀ s, endsInside isSpace s = false →
        afterCommentText (s ++ x) = leftBefore x (afterCommentText s) := by
    refine afterTrivia.mutual_induct
      (fun s => endsInComment isSpace s = false →
        afterTrivia (s ++ x) = leftBefore x (afterTrivia s))
      (fun s => endsInside isSpace s = false →
        afterCommentText (s ++ x) = leftBefore x (afterCommentText s)) ?_ ?_ ?_ ?_ ?_ ?_ ?_
    -- A comment opens, a space is skipped, a token is met, or the text is over.
    · intro r ih hclosed
      rw [endsInComment] at hclosed
      rw [List.cons_append, List.cons_append, afterTrivia, afterTrivia]
      exact ih hclosed
    · intro c r hne hc ih hclosed
      rw [endsInComment_cons hne, hc, Bool.true_and] at hclosed
      rw [List.cons_append, afterTrivia_space c _ hc, afterTrivia_space c _ hc]
      exact ih hclosed
    · intro c r hne hc _
      have hspace := Bool.eq_false_iff.mpr hc
      rw [afterTrivia_cons hspace hne, List.cons_append, afterTrivia_cons hspace fun r' =>
        not_comment_of_append hne hx (r := r')]
      rfl
    · intro _
      rw [List.nil_append, afterTrivia]
      rfl
    -- The comment closes, goes on, or is never closed.
    · intro r ih hclosed
      rw [endsInside] at hclosed
      rw [List.cons_append, List.cons_append, afterCommentText, afterCommentText]
      exact ih hclosed
    · intro c r hne ih hclosed
      rw [endsInside_cons hne] at hclosed
      have happend := afterCommentText_cons fun r' =>
        not_end_of_append hne hclosed (x := x) (r := r')
      rw [afterCommentText_cons hne, List.cons_append, happend]
      exact ih hclosed
    · intro hclosed
      rw [endsInside] at hclosed
      cases hclosed
  exact hboth.1 s h

/-! ### Selectors -/

def anyChar (_ : Char) : Bool := true

theorem blankComments_append_of_closed (s x : List Char) (h : endsInComment anyChar s = false)
    (hx : Text.StopsAt (· == '*') x) :
    blankComments (s ++ x) = blankComments s ++ blankComments x := by
  have hboth :
      (∀ s, endsInComment anyChar s = false →
        blankComments (s ++ x) = blankComments s ++ blankComments x) ∧
      ∀ s, endsInside anyChar s = false →
        dropComment (s ++ x) = dropComment s ++ blankComments x := by
    refine blankComments.mutual_induct
      (fun s => endsInComment anyChar s = false →
        blankComments (s ++ x) = blankComments s ++ blankComments x)
      (fun s => endsInside anyChar s = false →
        dropComment (s ++ x) = dropComment s ++ blankComments x) ?_ ?_ ?_ ?_ ?_ ?_
    · intro r ih hclosed
      rw [endsInComment] at hclosed
      rw [List.cons_append, List.cons_append, blankComments, blankComments, ih hclosed]
      rfl
    · intro c r hne ih hclosed
      rw [endsInComment_cons hne] at hclosed
      have happend := blankComments_cons fun r' => not_comment_of_append hne hx (r := r')
      rw [blankComments_cons hne, List.cons_append, happend, ih hclosed]
      rfl
    · intro _
      rw [List.nil_append, blankComments_nil]
      rfl
    · intro r ih hclosed
      rw [endsInside] at hclosed
      rw [List.cons_append, List.cons_append, dropComment, dropComment]
      exact ih hclosed
    · intro c r hne ih hclosed
      rw [endsInside_cons hne] at hclosed
      have happend := dropComment_cons fun r' => not_end_of_append hne hclosed (x := x) (r := r')
      rw [dropComment_cons hne, List.cons_append, happend]
      exact ih hclosed
    · intro hclosed
      rw [endsInside] at hclosed
      cases hclosed
  exact hboth.1 s h

theorem ne_of_blank {c d : Char} (hc : Text.isBlank c = true) (hd : Text.isBlank d = false) :
    c ≠ d := by
  rintro rfl
  rw [hc] at hd
  cases hd

theorem stopsAt_of_allBlank (d : Char) (hd : Text.isBlank d = false) (blanks : List Char)
    (h : Text.AllBlank blanks) : Text.StopsAt (· == d) blanks :=
  h.stopsAt _ fun _ hc => beq_eq_false_iff_ne.mpr (ne_of_blank hc hd)

theorem blankComments_blanks (blanks : List Char) (h : Text.AllBlank blanks) :
    blankComments blanks = blanks := by
  have happend := blankComments_append blanks [] fun c hc => ne_of_blank (h c hc) (by decide)
  rwa [List.append_nil, blankComments_nil,
    List.append_nil] at happend

theorem dropComment_blanks (blanks : List Char) (h : Text.AllBlank blanks) :
    dropComment blanks = [] := by
  induction blanks with
  | nil => rw [dropComment]
  | cons c blanks ih =>
    rw [dropComment]
    · exact ih fun d hd => h d (List.mem_cons_of_mem c hd)
    · intro r hc _
      exact ne_of_blank (h c List.mem_cons_self) (by decide) hc

/-- An open comment takes the blanks behind it. -/
theorem blankComments_append_of_open (s blanks : List Char)
    (h : endsInComment anyChar s = true) (hblanks : Text.AllBlank blanks) :
    blankComments (s ++ blanks) = blankComments s := by
  have hstar := stopsAt_of_allBlank '*' (by decide) blanks hblanks
  have hslash := stopsAt_of_allBlank '/' (by decide) blanks hblanks
  have hboth :
      (∀ s, endsInComment anyChar s = true → blankComments (s ++ blanks) = blankComments s) ∧
      ∀ s, endsInside anyChar s = true → dropComment (s ++ blanks) = dropComment s := by
    refine blankComments.mutual_induct
      (fun s => endsInComment anyChar s = true → blankComments (s ++ blanks) = blankComments s)
      (fun s => endsInside anyChar s = true → dropComment (s ++ blanks) = dropComment s)
      ?_ ?_ ?_ ?_ ?_ ?_
    · intro r ih hopen
      rw [endsInComment] at hopen
      rw [List.cons_append, List.cons_append, blankComments, blankComments, ih hopen]
    · intro c r hne ih hopen
      rw [endsInComment_cons hne] at hopen
      have happend := blankComments_cons fun r' => not_comment_of_append hne hstar (r := r')
      rw [blankComments_cons hne, List.cons_append, happend, ih hopen]
    · intro hopen
      rw [endsInComment] at hopen
      cases hopen
    · intro r ih hopen
      rw [endsInside] at hopen
      rw [List.cons_append, List.cons_append, dropComment, dropComment]
      exact ih hopen
    · intro c r hne ih hopen
      rw [endsInside_cons hne] at hopen
      have happend := dropComment_cons fun r' => not_end_of_ends hne (Or.inl hslash) (r := r')
      rw [dropComment_cons hne, List.cons_append, happend]
      exact ih hopen
    · intro _
      rw [List.nil_append, dropComment_blanks blanks hblanks, dropComment]
  exact hboth.1 s h

/-- The blanks behind a text have nothing to do with its comments. -/
theorem exists_blankComments_append (s blanks : List Char) (h : Text.AllBlank blanks) :
    ∃ kept, Text.AllBlank kept ∧ blankComments (s ++ blanks) = blankComments s ++ kept := by
  cases hopen : endsInComment anyChar s with
  | true =>
    refine ⟨[], Text.allBlank_nil, ?_⟩
    rw [blankComments_append_of_open s blanks hopen h, List.append_nil]
  | false =>
    refine ⟨blanks, h, ?_⟩
    have hstar := stopsAt_of_allBlank '*' (by decide) blanks h
    rw [blankComments_append_of_closed s blanks hopen hstar, blankComments_blanks blanks h]

theorem trim_blankComments_trim (s : List Char) :
    Text.trim (blankComments (Text.trim s)) = Text.trim (blankComments s) := by
  obtain ⟨front, hfront, hs⟩ := Text.exists_blanks_trimStart s
  obtain ⟨back, hback, hstart⟩ := Text.exists_blanks_trimEnd (Text.trimStart s)
  obtain ⟨kept, hkept, hblanked⟩ := exists_blankComments_append (Text.trim s) back hback
  have hall : blankComments s = front ++ (blankComments (Text.trim s) ++ kept) := by
    have hslash : ∀ c ∈ front, c ≠ '/' := fun c hc => ne_of_blank (hfront c hc) (by decide)
    rw [← hblanked, ← blankComments_append front _ hslash, Text.trim, ← hstart, ← hs]
  rw [hall, Text.trim_blanks_append _ _ hfront, Text.trim_append_blanks _ _ hkept]

/-! ### Fillers -/

/-- A text of which trivia and selectors keep what they keep of a blank. -/
structure Filler (f : List Char) : Prop where
  front : ∃ c r, f = c :: r ∧ (c = ' ' ∨ c = '/')
  skipped : ∀ s, afterTrivia (f ++ s) = afterTrivia s
  blanked : ∀ s, blankComments (f ++ s) = ' ' :: blankComments s

/-- A comment with some body. -/
def comment (body : List Char) : List Char := '/' :: '*' :: (body ++ commentEnd)

def blank : List Char := [' ']

theorem filler_blank : Filler blank where
  front := ⟨' ', [], rfl, Or.inl rfl⟩
  skipped s := afterTrivia_space ' ' s (by decide)
  blanked s := blankComments_of_ne ' ' s (by decide)

theorem comment_append (body s : List Char) :
    comment body ++ s = '/' :: '*' :: (body ++ '*' :: '/' :: s) := by
  simp [comment, commentEnd]

theorem filler_comment (body : List Char) (h : Text.occursIn commentEnd body = false) :
    Filler (comment body) where
  front := ⟨'/', '*' :: (body ++ commentEnd), rfl, Or.inr rfl⟩
  skipped s := by rw [comment_append, afterTrivia, afterCommentText_of_body body s h]
  blanked s := by rw [comment_append, blankComments, dropComment_of_body body s h]

theorem failsOnTrivia_eq (d : Char) (hspace : isSpace d = false) (hslash : d ≠ '/') :
    FailsOnTrivia (· == d) := by
  constructor
  · rintro c hc
    rw [beq_eq_false_iff_ne]
    rintro rfl
    rw [hspace] at hc
    cases hc
  · exact beq_eq_false_iff_ne.mpr hslash.symm

theorem failsOnTrivia_star : FailsOnTrivia (· == '*') :=
  failsOnTrivia_eq '*' (by decide) (by decide)

namespace Filler

variable {f : List Char}

theorem stopsAt (h : Filler f) (p : Char → Bool) (hp : FailsOnTrivia p) (s : List Char) :
    Text.StopsAt p (f ++ s) := by
  obtain ⟨c, r, rfl, hc⟩ := h.front
  rcases hc with rfl | rfl
  · exact Text.stopsAt_cons p ' ' _ (hp.1 ' ' (by decide))
  · exact Text.stopsAt_cons p '/' _ hp.2

theorem afterTrivia_append (h : Filler f) (s after : List Char)
    (hclosed : endsInComment isSpace s = false) :
    afterTrivia (s ++ (f ++ after)) = leftBefore (f ++ after) (afterTrivia s) :=
  afterTrivia_append_of_closed s _ hclosed (h.stopsAt _ failsOnTrivia_star after)

end Filler

end FrameUI.Style
