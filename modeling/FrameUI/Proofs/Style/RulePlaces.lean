import FrameUI.Proofs.Style.ClosingBraces

/-!
# Rules in blocks and at the top

A rule that was read in a block is read at the top of a sheet with the same marks, unless its
selector is the keyword of blocks. The marks of a run of steps tell which steps they were, and so
what the text of the rule consists of. Main statement: `RuleParts.readFrom_top`.
-/

namespace FrameUI.Style

/-! ### Steps from their marks -/

theorem Moves.single {p p' : Place} {ms : List Mark} (h : Moves p ms p') (hp : p ≠ .top) :
    ∃ m, ms = [m] := by
  cases h with
  | skip => exact absurd rfl hp
  | openScope => exact absurd rfl hp
  | openRule => exact absurd rfl hp
  | define name raw => exact ⟨_, rfl⟩
  | openInner text selector => exact ⟨_, rfl⟩
  | closeScope => exact ⟨_, rfl⟩
  | declare inScope name raw => exact ⟨_, rfl⟩
  | closeRule inScope => exact ⟨_, rfl⟩

theorem Reads.nil_inv {p p' : Place} {s rest : List Char} (h : Reads p s [] p' rest)
    (hp : p ≠ .top) : p' = p ∧ rest = s := by
  generalize hms : ([] : List Mark) = ms at h
  cases h with
  | nil => exact ⟨rfl, rfl⟩
  | step p p' p'' s rest rest' ms more hstep _ =>
    obtain ⟨m, rfl⟩ := (moves_of_step p p' s rest ms hstep).single hp
    cases hms

/-- Inside a block or a rule the first mark is that of the first step. -/
theorem Reads.cons_inv {p p'' : Place} {s rest' : List Char} {m : Mark} {more : List Mark}
    (h : Reads p s (m :: more) p'' rest') (hp : p ≠ .top) :
    ∃ p' rest, Style.step p s = .go [m] p' rest ∧ Reads p' rest more p'' rest' := by
  generalize hms : m :: more = ms at h
  cases h with
  | nil => cases hms
  | step p p' p'' s rest rest' first later hstep hrest =>
    obtain ⟨m', rfl⟩ := (moves_of_step p p' s rest first hstep).single hp
    obtain ⟨rfl, rfl⟩ := List.cons.inj hms
    exact ⟨p', rest, hstep, hrest⟩

/-- A step in a rule closes it or reads a declaration. -/
theorem stepRule_cases (inScope : Bool) (s rest : List Char) (ms : List Mark) (p : Place)
    (h : stepRule inScope s = .go ms p rest) :
    (s = '}' :: rest ∧ ms = [.ruleClosed]) ∨
      ∃ name raw, readPair s = .ok (name, raw, ';' :: rest) ∧ ms = [.declared name raw] ∧
        p = .rule inScope := by
  unfold stepRule at h
  split at h
  · cases h
  · split at h
    · rename_i hclose
      cases h
      exact Or.inl ⟨by rw [hclose], rfl⟩
    · split at h
      · cases h
      · rename_i name raw _ hread
        split at h
        · cases h
          exact Or.inr ⟨name, raw, hread, rfl, rfl⟩
        · cases h

/-- A step in a block closes it, reads a variable or reads the head of a rule. -/
theorem stepScope_cases (s rest : List Char) (ms : List Mark) (p : Place)
    (h : stepScope s = .go ms p rest) :
    (s = '}' :: rest ∧ ms = [.scopeClosed]) ∨
      (∃ name raw, readPair s = .ok (name, raw, ';' :: rest) ∧ ms = [.defined name raw]) ∨
      ∃ shown selector, readHead s = .ok (shown, selector, rest) ∧
        ms = [.ruleOpened shown selector] ∧ p = .rule true := by
  unfold stepScope at h
  split at h
  · cases h
  · split at h
    · rename_i hclose
      cases h
      exact Or.inl ⟨by rw [hclose], rfl⟩
    · split at h
      · split at h
        · cases h
        · rename_i name raw _ hread
          split at h
          · cases h
            exact Or.inr (Or.inl ⟨name, raw, hread, rfl⟩)
          · cases h
      · unfold stepHead at h
        split at h
        · cases h
        · rename_i shown selector _ hread
          cases h
          exact Or.inr (Or.inr ⟨shown, selector, hread, rfl, rfl⟩)

theorem readHead_of_stepScope (s rest : List Char) (shown : String) (selector : Selector)
    (p : Place) (h : stepScope s = .go [.ruleOpened shown selector] p rest) :
    readHead s = .ok (shown, selector, rest) ∧ p = .rule true := by
  rcases stepScope_cases s rest _ p h with ⟨_, hms⟩ | ⟨_, _, _, hms⟩ | ⟨_, _, hread, hms, hp⟩
  · cases hms
  · cases hms
  · cases hms
    exact ⟨hread, hp⟩

theorem brace_of_stepScope (s after : List Char) (p : Place)
    (h : stepScope s = .go [.scopeClosed] p after) : s = '}' :: after := by
  rcases stepScope_cases s after _ p h with ⟨hbrace, _⟩ | ⟨_, _, _, hms⟩ | ⟨_, _, _, hms, _⟩
  · exact hbrace
  · cases hms
  · cases hms

/-! ### The text of a rule -/

theorem bodyText_of_reads (pairs : List (String × String)) (s rest : List Char)
    (h : Reads (.rule true) s
      (pairs.map (fun pair => .declared pair.1 pair.2) ++ [.ruleClosed]) .scope rest) :
    ∃ body, BodyText pairs body ∧ s = body ++ rest := by
  induction pairs generalizing s with
  | nil =>
    obtain ⟨p', rest', hstep, hrest⟩ := h.cons_inv (by decide)
    rcases stepRule_cases true _ rest' _ p' hstep with ⟨hclose, _⟩ | ⟨_, _, _, hms, _⟩
    · rw [step, hclose] at hstep
      simp only [stepRule, if_true, Step.go.injEq, true_and, and_true] at hstep
      subst hstep
      obtain ⟨_, rfl⟩ := hrest.nil_inv (by decide)
      obtain ⟨⟨gap, hgap, rfl⟩, _⟩ := trivia_of_afterTrivia s '}' _ hclose
      exact ⟨gap ++ ['}'], .close gap hgap, by simp⟩
    · cases hms
  | cons pair pairs ih =>
    obtain ⟨p', rest', hstep, hrest⟩ := h.cons_inv (by decide)
    rcases stepRule_cases true _ rest' _ p' hstep with ⟨_, hms⟩ | ⟨name, raw, hread, hms, rfl⟩
    · cases hms
    · cases hms
      obtain ⟨body, hbody, rfl⟩ := ih rest' hrest
      obtain ⟨text, htext, heq⟩ := pairText_of_readPair _ _ _ _ hread
      obtain ⟨c, r, hfront, _⟩ := htext.front
      rw [hfront, List.cons_append] at heq
      obtain ⟨⟨gap, hgap, rfl⟩, _⟩ := trivia_of_afterTrivia s c _ heq
      refine ⟨gap ++ (text ++ body), .declare _ _ pairs gap text body hgap htext hbody, ?_⟩
      rw [hfront]
      simp

/-- The text of a rule up to its brace and behind it. -/
structure RuleParts (shown : String) (r : RuleItem) (head body : List Char) : Prop where
  noBrace : '{' ∉ head
  selector : Selector.parse? (Text.trim (blankComments head)) = some r.selector
  read : ∀ y, readHead (head ++ '{' :: y) = .ok (shown, r.selector, y)
  body : BodyText r.declarations body

/-- What is read in a block with the marks of a rule is the text of a rule. -/
theorem ruleParts_of_reads (c : Char) (s rest : List Char) (shown : String) (r : RuleItem)
    (hspace : isSpace c = false) (hslash : c ≠ '/')
    (h : Reads .scope (c :: (s ++ rest)) (ruleMarks shown r) .scope rest) :
    ∃ head body, RuleParts shown r head body ∧ c :: s = head ++ '{' :: body := by
  obtain ⟨p, behind, hstep, hrest⟩ := h.cons_inv (by decide)
  rw [step, afterTrivia_of_ne c _ hspace hslash] at hstep
  obtain ⟨hread, rfl⟩ := readHead_of_stepScope _ behind shown r.selector p hstep
  obtain ⟨head, heq, hbrace, hselector, hagain⟩ := head_of_readHead _ shown _ behind hread
  obtain ⟨body, hbody, rfl⟩ := bodyText_of_reads r.declarations behind rest hrest
  have hwhole : c :: s ++ rest = (head ++ '{' :: body) ++ rest := by
    rw [List.cons_append, heq, List.append_assoc, List.cons_append]
  exact ⟨head, body, ⟨hbrace, hselector, hagain, hbody⟩, List.append_cancel_right hwhole⟩

/-! ### Rules at the top -/

/-- What stands between the keyword and the brace of a block is blank once its comments are. -/
theorem allBlank_of_afterTrivia (g z body : List Char) (hbrace : '{' ∉ g)
    (h : afterTrivia (g ++ '{' :: z) = '{' :: body) : Text.AllBlank (blankComments g) := by
  have hboth :
      (∀ g, '{' ∉ g → afterTrivia (g ++ '{' :: z) = '{' :: body →
        Text.AllBlank (blankComments g)) ∧
      ∀ g, '{' ∉ g → afterCommentText (g ++ '{' :: z) = '{' :: body →
        Text.AllBlank (dropComment g) := by
    refine blankComments.mutual_induct
      (fun g => '{' ∉ g → afterTrivia (g ++ '{' :: z) = '{' :: body →
        Text.AllBlank (blankComments g))
      (fun g => '{' ∉ g → afterCommentText (g ++ '{' :: z) = '{' :: body →
        Text.AllBlank (dropComment g)) ?_ ?_ ?_ ?_ ?_ ?_
    · intro g ih hbrace h
      rw [List.cons_append, List.cons_append, afterTrivia] at h
      rw [blankComments]
      exact (ih (by simpa using hbrace) h).cons (by decide)
    · intro c g hne ih hbrace h
      obtain ⟨hc, hg⟩ := not_or.mp (mt List.mem_cons.mpr hbrace)
      have happend := fun r' => not_comment_of_append hne
        (Text.stopsAt_cons (· == '*') '{' z (by decide)) (r := r')
      rw [blankComments_cons hne]
      by_cases hspace : isSpace c = true
      · rw [List.cons_append, afterTrivia_space c _ hspace] at h
        exact (ih hg h).cons (isBlank_of_isSpace c hspace)
      · rw [List.cons_append, afterTrivia_cons (Bool.eq_false_iff.mpr hspace) happend] at h
        exact absurd (List.cons.inj h).1.symm hc
    · intro _ _
      rw [blankComments_nil]
      exact Text.allBlank_nil
    · intro g ih hbrace h
      rw [List.cons_append, List.cons_append, afterCommentText] at h
      rw [dropComment]
      exact ih (by simpa using hbrace) h
    · intro c g hne ih hbrace h
      have happend := fun r' => not_end_of_ends hne
        (Or.inl (Text.stopsAt_cons (· == '/') '{' z (by decide))) (r := r')
      rw [List.cons_append, afterCommentText_cons happend] at h
      rw [dropComment_cons hne]
      exact ih (fun hmem => hbrace (List.mem_cons_of_mem c hmem)) h
    · intro _ _
      rw [dropComment]
      exact Text.allBlank_nil
  exact hboth.1 g hbrace h

theorem parse?_scopeWord_append (blanks : List Char) (h : Text.AllBlank blanks) :
    Selector.parse? (Text.trim (scopeWord ++ blanks)) = some scopeSelector := by
  rw [Selector.parse?, Text.words_trim, Text.words_append_blanks scopeWord blanks h]
  decide +kernel

namespace RuleParts

variable {shown : String} {r : RuleItem} {head body : List Char}

/-- A rule is not taken for a block. -/
theorem openScope?_eq_none (h : RuleParts shown r head body) (hscope : r.selector ≠ scopeSelector)
    (y : List Char) : openScope? (head ++ '{' :: y) = none := by
  cases hopen : openScope? (head ++ '{' :: y) with
  | none => rfl
  | some inner =>
    exfalso
    obtain ⟨after, hword, hafter⟩ := block_of_openScope? _ inner hopen
    have hhead : ∃ g, head = scopeWord ++ g ∧ after = g ++ '{' :: y := by
      rcases List.append_eq_append_iff.mp hword with ⟨g, hlong, hrest⟩ | hshort
      · cases g with
        | nil => exact ⟨[], by simpa using hlong.symm, hrest.symm⟩
        | cons c g =>
          obtain ⟨rfl, _⟩ := List.cons.inj hrest
          have hmem : '{' ∈ scopeWord := hlong ▸ List.mem_append_right head List.mem_cons_self
          exact absurd hmem (by decide)
      · exact hshort
    obtain ⟨g, rfl, rfl⟩ := hhead
    have hfree : '{' ∉ g := fun hmem => h.noBrace (List.mem_append_right _ hmem)
    have hselector := h.selector
    rw [blankComments_append scopeWord g (by simp [scopeWord]),
      parse?_scopeWord_append _ (allBlank_of_afterTrivia g y inner hfree hafter)] at hselector
    exact hscope (Option.some.inj hselector).symm

theorem front_ne (h : RuleParts shown r head body) (c : Char) (s : List Char) (hslash : c ≠ '/')
    (hfront : c :: s = head ++ '{' :: body) (d : Char)
    (hd : (Text.isBlank d || isCompoundChar d) = false) : c ≠ d := by
  have hread := h.read body
  rw [← hfront] at hread
  exact ne_of_front (front_of_readHead c s _ (fun _ hc _ => hslash hc) hread) hd

/-- At the top of a sheet a rule is read to its end, whatever follows. -/
theorem readFrom_top (h : RuleParts shown r head body) (hscope : r.selector ≠ scopeSelector)
    (c : Char) (s y : List Char) (hspace : isSpace c = false) (hslash : c ≠ '/')
    (hfront : c :: s = head ++ '{' :: body) :
    readFrom .top (c :: (s ++ y)) = (readFrom .top y).after (ruleMarks shown r) := by
  have htext : c :: (s ++ y) = head ++ '{' :: (body ++ y) := by
    rw [← List.cons_append, hfront, List.append_assoc, List.cons_append]
  have hopen := h.openScope?_eq_none hscope (body ++ y)
  have hread := h.read (body ++ y)
  rw [← htext] at hopen hread
  have hat := h.front_ne c s hslash hfront '@' (by decide)
  have hgo : step .top (c :: (s ++ y)) =
      .go [.ruleOpened shown r.selector] (.rule false) (body ++ y) := by
    rw [step, afterTrivia_of_ne c _ hspace hslash]
    simp only [stepTop, hopen, if_neg hat, stepHead, hread]
  rw [readFrom_of_go _ _ _ _ _ hgo, readFrom_of_bodyText false _ body y h.body,
    Reading.after_after]
  rfl

/-- A rule with the trivia behind it is a piece of text. -/
theorem isPiece (h : RuleParts shown r head body) (c : Char) (s : List Char) (hslash : c ≠ '/')
    (hfront : c :: s = head ++ '{' :: body) (trivia : List Char) (htrivia : Trivia trivia) :
    IsPiece (c :: s ++ trivia) where
  front := ⟨c, s ++ trivia, rfl, hslash, h.front_ne c s hslash hfront '*' (by decide)⟩
  last := by
    have hrule : (c :: s).getLast? = some '}' := by
      rw [hfront, List.getLast?_append, List.getLast?_cons, h.body.getLast?]
      rfl
    have htail := htrivia.getLast?_ne_star
    rw [List.getLast?_append, hrule]
    cases hlast : trivia.getLast? with
    | none => decide
    | some d =>
      rw [hlast] at htail
      exact htail

end RuleParts

end FrameUI.Style
