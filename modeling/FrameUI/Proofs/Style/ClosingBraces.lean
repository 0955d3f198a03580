import FrameUI.Proofs.Style.Locality

/-!
# What a closing brace hides

A comment that is open in front of a closing brace goes on behind it. If a piece of text changes
places with the brace, the comment goes on to the same token, or to the item that follows both,
which begins with neither a colon nor a brace. Main statement: `showsNoMore_swap`, that the brace
shows no more in front of the piece than behind it.
-/

namespace FrameUI.Style

/-! ### Open comments -/

theorem getLast?_ne_of_cons {c d : Char} {s : List Char} (h : (c :: s).getLast? ≠ some d) :
    s.getLast? ≠ some d := by
  intro hs
  rw [List.getLast?_cons, hs] at h
  exact h rfl

/-- Behind a comment that is not closed the reader goes on as inside one. -/
theorem afterTrivia_append_of_open (s x : List Char) (h : endsInComment isSpace s = true)
    (hx : Text.StopsAt (· == '/') x ∨ s.getLast? ≠ some '*') :
    afterTrivia (s ++ x) = afterCommentText x := by
  have hboth :
      (∀ s, endsInComment isSpace s = true →
        Text.StopsAt (· == '/') x ∨ s.getLast? ≠ some '*' →
        afterTrivia (s ++ x) = afterCommentText x) ∧
      ∀ s, endsInside isSpace s = true →
        Text.StopsAt (· == '/') x ∨ s.getLast? ≠ some '*' →
        afterCommentText (s ++ x) = afterCommentText x := by
    refine afterTrivia.mutual_induct
      (fun s => endsInComment isSpace s = true →
        Text.StopsAt (· == '/') x ∨ s.getLast? ≠ some '*' →
        afterTrivia (s ++ x) = afterCommentText x)
      (fun s => endsInside isSpace s = true →
        Text.StopsAt (· == '/') x ∨ s.getLast? ≠ some '*' →
        afterCommentText (s ++ x) = afterCommentText x) ?_ ?_ ?_ ?_ ?_ ?_ ?_
    · intro r ih hopen hx
      rw [endsInComment] at hopen
      rw [List.cons_append, List.cons_append, afterTrivia]
      exact ih hopen (hx.imp_right fun hlast => getLast?_ne_of_cons (getLast?_ne_of_cons hlast))
    · intro c r hne hc ih hopen hx
      rw [endsInComment_cons hne, hc, Bool.true_and] at hopen
      rw [List.cons_append, afterTrivia_space c _ hc]
      exact ih hopen (hx.imp_right getLast?_ne_of_cons)
    · intro c r hne hc hopen
      rw [endsInComment_cons hne, Bool.and_eq_true] at hopen
      exact absurd hopen.1 hc
    · intro hopen
      rw [endsInComment] at hopen
      cases hopen
    · intro r ih hopen hx
      rw [endsInside] at hopen
      rw [List.cons_append, List.cons_append, afterCommentText]
      exact ih hopen (hx.imp_right fun hlast => getLast?_ne_of_cons (getLast?_ne_of_cons hlast))
    · intro c r hne ih hopen hx
      rw [endsInside_cons hne] at hopen
      have happend := afterCommentText_cons fun r' => not_end_of_ends hne hx (r := r')
      rw [List.cons_append, happend]
      exact ih hopen (hx.imp_right getLast?_ne_of_cons)
    · intro _ _
      rfl
  exact hboth.1 s h hx

/-- Inside a comment nothing counts that has no star. -/
theorem afterCommentText_append (s x : List Char) (h : '*' ∉ s) :
    afterCommentText (s ++ x) = afterCommentText x := by
  induction s with
  | nil => rfl
  | cons c s ih =>
    obtain ⟨hc, hs⟩ := not_or.mp (mt List.mem_cons.mpr h)
    rw [List.cons_append, afterCommentText_cons fun _ heq _ => hc heq.symm]
    exact ih hs

/-! ### What the closing brace hides -/

theorem ShowsNoMore.append_left {y x : List Char} (h : ShowsNoMore y x) (gap : List Char) :
    ShowsNoMore (gap ++ y) (gap ++ x) := by
  intro t d ht hd hy
  rw [← List.append_assoc] at hy ⊢
  exact h (t ++ gap) d (List.mem_append_left gap ht) hd hy

theorem trivia_of_spaces (spaces : List Char) (h : ∀ c ∈ spaces, isSpace c = true) :
    Trivia spaces := by
  induction spaces with
  | nil => exact .nil
  | cons c spaces ih =>
    exact .space c spaces (h c List.mem_cons_self) (ih fun d hd => h d (List.mem_cons_of_mem c hd))

/-- The closing brace of a block, after white space. -/
def IsClosing (closing : List Char) : Prop :=
  ∃ spaces, (∀ c ∈ spaces, isSpace c = true) ∧ closing = spaces ++ ['}']

namespace IsClosing

variable {closing : List Char}

theorem not_mem (h : IsClosing closing) (d : Char) (hspace : isSpace d = false) (hd : d ≠ '}') :
    d ∉ closing := by
  obtain ⟨spaces, hspaces, rfl⟩ := h
  intro hmem
  rcases List.mem_append.mp hmem with hmem | hmem
  · rw [hspaces d hmem] at hspace
    cases hspace
  · exact hd (List.mem_singleton.mp hmem)

theorem afterTrivia_append (h : IsClosing closing) (s : List Char) :
    afterTrivia (closing ++ s) = '}' :: s := by
  obtain ⟨spaces, hspaces, rfl⟩ := h
  rw [List.append_assoc, List.singleton_append]
  exact afterTrivia_append_token spaces s '}' (trivia_of_spaces spaces hspaces) (by decide)
    (by decide)

theorem stopsAt (h : IsClosing closing) (d : Char) (hd : d ∉ closing) (s : List Char) :
    Text.StopsAt (· == d) (closing ++ s) := by
  have hne : closing ≠ [] := by
    obtain ⟨spaces, _, rfl⟩ := h
    exact List.append_ne_nil_of_right_ne_nil spaces (List.cons_ne_nil _ _)
  obtain ⟨c, rest, rfl⟩ := List.exists_cons_of_ne_nil hne
  exact Text.stopsAt_cons _ c _ (beq_false_of_ne fun heq => hd (heq ▸ List.mem_cons_self))

end IsClosing

/-- A piece of text between whose ends and other text no comment begins or ends. -/
structure IsPiece (a : List Char) : Prop where
  front : ∃ c s, a = c :: s ∧ c ≠ '/' ∧ c ≠ '*'
  last : a.getLast? ≠ some '*'

namespace IsPiece

variable {a : List Char}

theorem stopsAt (h : IsPiece a) (d : Char) (hd : d = '/' ∨ d = '*') (s : List Char) :
    Text.StopsAt (· == d) (a ++ s) := by
  obtain ⟨c, r, rfl, hslash, hstar⟩ := h.front
  refine Text.stopsAt_cons _ c _ (beq_false_of_ne ?_)
  rcases hd with rfl | rfl
  · exact hslash
  · exact hstar

/-- A comment ends in a piece of text, or goes through it. -/
theorem afterCommentText_append (h : IsPiece a) :
    (∃ kept, ∀ s, Text.StopsAt (· == '*') s → afterCommentText (a ++ s) = leftBefore s kept) ∨
      ∀ s, afterCommentText (a ++ s) = afterCommentText s := by
  have hopened : ∀ s, afterCommentText (a ++ s) = afterTrivia ('/' :: '*' :: a ++ s) := by
    intro s
    rw [List.cons_append, List.cons_append, afterTrivia]
  cases hopen : endsInComment isSpace ('/' :: '*' :: a) with
  | false =>
    refine Or.inl ⟨afterTrivia ('/' :: '*' :: a), fun s hs => ?_⟩
    rw [hopened, afterTrivia_append_of_closed _ s hopen hs]
  | true =>
    have hlast : ('/' :: '*' :: a).getLast? ≠ some '*' := by
      obtain ⟨c, r, rfl, _⟩ := h.front
      rw [List.getLast?_cons_cons, List.getLast?_cons_cons]
      exact h.last
    refine Or.inr fun s => ?_
    rw [hopened, afterTrivia_append_of_open _ s hopen (Or.inr hlast)]

end IsPiece

/-- A closing brace in front of a piece of text that stood in front of it hides what it hid: a
comment that is open in front of both goes on to the same token, or to one that is neither a
colon nor a brace. -/
theorem showsNoMore_swap (a closing after : List Char) (ha : IsPiece a)
    (hclosing : IsClosing closing) (hafter : Text.StopsAt (· == '*') after)
    (htoken : ∀ d, d = ':' ∨ d = '{' → (afterTrivia after).head? ≠ some d) :
    ShowsNoMore (closing ++ (a ++ after)) (a ++ (closing ++ after)) := by
  intro t d _ hd hy
  have hfree := hclosing.not_mem '*' (by decide) (by decide)
  have hnoStar := hclosing.stopsAt '*' hfree
  have hnoSlash := hclosing.stopsAt '/' (hclosing.not_mem '/' (by decide) (by decide))
  cases hopen : endsInComment isSpace t with
  | false =>
    rw [afterTrivia_append_of_closed t _ hopen (hnoStar _)] at hy
    rw [afterTrivia_append_of_closed t _ hopen (ha.stopsAt '*' (Or.inr rfl) _)]
    cases hkept : afterTrivia t with
    | nil =>
      rw [hkept, leftBefore, hclosing.afterTrivia_append] at hy
      obtain rfl : '}' = d := Option.some.inj hy
      exact absurd hd (by decide)
    | cons c r =>
      rw [hkept] at hy
      exact hy
  | true =>
    rw [afterTrivia_append_of_open t _ hopen (Or.inl (hnoSlash _)),
      afterCommentText_append closing _ hfree] at hy
    rw [afterTrivia_append_of_open t _ hopen (Or.inl (ha.stopsAt '/' (Or.inl rfl) _))]
    rcases ha.afterCommentText_append with ⟨kept, hends⟩ | hthrough
    · rw [hends _ hafter] at hy
      rw [hends _ (hnoStar after)]
      cases kept with
      | nil => exact absurd hy (htoken d hd)
      | cons c r => exact hy
    · rw [hthrough] at hy
      rw [hthrough, afterCommentText_append closing _ hfree]
      exact hy

/-! ### What follows a block -/

/-- A sheet that is read to its end begins with an item. -/
theorem front_of_readFrom_top (s : List Char) (h : (readFrom .top s).failure = none) (c : Char)
    (r : List Char) (hs : afterTrivia s = c :: r) :
    c = '@' ∨ Text.isBlank c = true ∨ isCompoundChar c = true := by
  obtain ⟨_, _, hcomment⟩ := trivia_of_afterTrivia s c r hs
  cases hstep : step .top s with
  | stop ms failure =>
    rw [readFrom_of_stop .top s ms failure hstep] at h
    obtain rfl : failure = none := h
    simp only [step, hs, stepTop] at hstep
    split at hstep
    · cases hstep
    · split at hstep
      · cases hstep
      · exact absurd hstep (stepHead_ne_stop _ _ _)
  | go ms p rest =>
    simp only [step, hs, stepTop] at hstep
    split at hstep
    · rename_i inner hopen
      obtain ⟨after, hword, _⟩ := block_of_openScope? _ inner hopen
      rw [(List.cons.inj hword).1]
      exact Or.inr (Or.inr (by decide))
    · split at hstep
      · rename_i hat
        exact Or.inl hat
      · obtain ⟨_, _, _, hfront, _⟩ := stepHead_local false c r rest ms p hcomment hstep
        exact Or.inr hfront

theorem ne_of_readFrom_top (s : List Char) (h : (readFrom .top s).failure = none) (d : Char)
    (hd : d ≠ '@' ∧ (Text.isBlank d || isCompoundChar d) = false) :
    (afterTrivia s).head? ≠ some d := by
  intro hhead
  obtain ⟨r, hs⟩ := List.head?_eq_some_iff.mp hhead
  rcases front_of_readFrom_top s h d r hs with hat | hfront
  · exact hd.1 hat
  · exact ne_of_front hfront hd.2 rfl

theorem stopsAt_star_of_readFrom_top (s : List Char) (h : (readFrom .top s).failure = none) :
    Text.StopsAt (· == '*') s := by
  cases s with
  | nil => exact Text.stopsAt_nil _
  | cons c s =>
    refine Text.stopsAt_cons _ c s (beq_false_of_ne ?_)
    rintro rfl
    refine ne_of_readFrom_top _ h '*' (by decide) ?_
    rw [afterTrivia_of_ne '*' s (by decide) (by decide)]
    rfl

/-! ### Where pieces end -/

theorem getLast?_cons_ne {c d : Char} {s : List Char} (hc : c ≠ d) (hs : s.getLast? ≠ some d) :
    (c :: s).getLast? ≠ some d := by
  rw [List.getLast?_cons]
  cases hlast : s.getLast? with
  | none => exact fun heq => hc (Option.some.inj heq)
  | some e =>
    rw [hlast] at hs
    exact hs

theorem Trivia.getLast?_ne_star (trivia : List Char) (h : Trivia trivia) :
    trivia.getLast? ≠ some '*' := by
  induction h with
  | nil => exact (Option.some_ne_none _).symm
  | space c rest hc _ ih =>
    refine getLast?_cons_ne ?_ ih
    rintro rfl
    exact absurd hc (by decide)
  | comment body rest _ _ ih =>
    have hends := getLast?_cons_ne (c := '/') (by decide) ih
    have hsplit : '/' :: '*' :: (body ++ '*' :: '/' :: rest) =
        ('/' :: '*' :: (body ++ ['*'])) ++ '/' :: rest := by
      simp
    rw [hsplit, List.getLast?_append_of_ne_nil _ (List.cons_ne_nil _ _)]
    exact hends

theorem BodyText.getLast? (pairs : List (String × String)) (body : List Char)
    (h : BodyText pairs body) : body.getLast? = some '}' := by
  induction h with
  | close trivia _ => exact List.getLast?_concat
  | declare name raw pairs trivia pair rest _ _ _ ih =>
    rw [List.getLast?_append, List.getLast?_append, ih]
    rfl

end FrameUI.Style
