import FrameUI.Proofs.Style.Grammar
import FrameUI.Proofs.Text.Spans
import FrameUI.Style.Reading

/-!
# Reading tokens

What the lexical pieces make of the texts of the grammar, in front of any rest. Trivia are
skipped up to the next token, identifiers and values are read from end to end, and a
declaration is read as its name and its value. Main statements: `readPair_of_pairText` and
`startsVariable_of_pairText`.
-/

namespace FrameUI.Style

/-! ### White space -/

theorem isSpace_cases (c : Char) (h : isSpace c = true) :
    c = ' ' ∨ c = '\t' ∨ c = '\r' ∨ c = '\n' := by
  simp only [isSpace, Bool.or_eq_true, beq_iff_eq] at h
  rcases h with ((h | h) | h) | h
  · exact Or.inl h
  · exact Or.inr (Or.inl h)
  · exact Or.inr (Or.inr (Or.inl h))
  · exact Or.inr (Or.inr (Or.inr h))

theorem isBlank_of_isSpace (c : Char) (h : isSpace c = true) : Text.isBlank c = true := by
  rcases isSpace_cases c h with rfl | rfl | rfl | rfl <;> decide

/-- A test that no first character of trivia passes. -/
def FailsOnTrivia (p : Char → Bool) : Prop :=
  (∀ c, isSpace c = true → p c = false) ∧ p '/' = false

theorem Trivia.stopsAt (p : Char → Bool) (trivia s : List Char) (h : Trivia trivia)
    (hp : FailsOnTrivia p) (hs : Text.StopsAt p s) : Text.StopsAt p (trivia ++ s) := by
  cases h with
  | nil => exact hs
  | space c rest hc _ => exact Text.stopsAt_cons p c _ (hp.1 c hc)
  | comment body rest _ _ => exact Text.stopsAt_cons p '/' _ hp.2

theorem failsOnTrivia_nameChar : FailsOnTrivia Text.isNameChar := by
  constructor
  · intro c hc
    rcases isSpace_cases c hc with rfl | rfl | rfl | rfl <;> decide
  · decide

/-! ### Trivia -/

theorem afterTrivia_space (c : Char) (s : List Char) (h : isSpace c = true) :
    afterTrivia (c :: s) = afterTrivia s := by
  rw [afterTrivia]
  · rw [if_pos h]
  · intro r heq
    subst heq
    exact absurd h (by decide)

/-- No text beginning with a character that begins no trivia is shortened. -/
theorem afterTrivia_of_ne (c : Char) (s : List Char) (hspace : isSpace c = false)
    (hslash : c ≠ '/') : afterTrivia (c :: s) = c :: s := by
  rw [afterTrivia]
  · rw [if_neg (by simp [hspace])]
  · intro r heq
    subst heq
    exact absurd rfl hslash

theorem occursIn_cons (part : List Char) (c : Char) (s : List Char)
    (h : Text.occursIn part (c :: s) = false) :
    part.isPrefixOf (c :: s) = false ∧ Text.occursIn part s = false := by
  simpa only [Text.occursIn, Bool.or_eq_false_iff] using h

/-- A comment body is not ended early: neither by itself nor together with its end. -/
theorem not_end_of_body (c : Char) (body rest r : List Char)
    (h : commentEnd.isPrefixOf (c :: body) = false) (hc : c = '*')
    (heq : body ++ '*' :: '/' :: rest = '/' :: r) : False := by
  cases body with
  | nil =>
    have hhead := (List.cons.inj heq).1
    exact absurd hhead (by decide)
  | cons d body =>
    obtain ⟨rfl, _⟩ := List.cons.inj heq
    subst hc
    simp [commentEnd] at h

theorem afterCommentText_of_body (body rest : List Char)
    (h : Text.occursIn commentEnd body = false) :
    afterCommentText (body ++ '*' :: '/' :: rest) = afterTrivia rest := by
  induction body with
  | nil => rw [List.nil_append, afterCommentText]
  | cons c body ih =>
    obtain ⟨hhere, hbody⟩ := occursIn_cons commentEnd c body h
    rw [List.cons_append, afterCommentText]
    · exact ih hbody
    · intro r hc heq
      exact not_end_of_body c body rest r hhere hc heq

theorem afterTrivia_append (trivia s : List Char) (h : Trivia trivia) :
    afterTrivia (trivia ++ s) = afterTrivia s := by
  induction h with
  | nil => rfl
  | space c rest hc _ ih => rw [List.cons_append, afterTrivia_space c _ hc, ih]
  | comment body rest hbody _ ih =>
    have hassoc : '/' :: '*' :: (body ++ '*' :: '/' :: rest) ++ s =
        '/' :: '*' :: (body ++ '*' :: '/' :: (rest ++ s)) := by
      simp
    rw [hassoc, afterTrivia, afterCommentText_of_body body _ hbody, ih]

theorem afterTrivia_append_token (trivia s : List Char) (c : Char) (h : Trivia trivia)
    (hspace : isSpace c = false) (hslash : c ≠ '/') :
    afterTrivia (trivia ++ c :: s) = c :: s := by
  rw [afterTrivia_append trivia _ h, afterTrivia_of_ne c s hspace hslash]

theorem afterTrivia_trivia (trivia : List Char) (h : Trivia trivia) :
    afterTrivia trivia = [] := by
  have hskip := afterTrivia_append trivia [] h
  rw [List.append_nil] at hskip
  rw [hskip, afterTrivia]

/-! ### Identifiers -/

theorem IsIdent.longestName (name : String) (h : IsIdent name) (s : List Char)
    (hs : Text.StopsAt Text.isNameChar s) : Text.LongestName name.toList s :=
  ⟨h.nonempty, h.letters, hs⟩

theorem readIdent?_of_longestName (name s : List Char) (h : Text.LongestName name s) :
    readIdent? (name ++ s) = some (name, s) := by
  rw [readIdent?, h.nameRun_isEmpty, h.nameRun_eq, h.afterName_eq]
  rfl

theorem readIdent?_of_stopsAt (s : List Char) (h : Text.StopsAt Text.isNameChar s) :
    readIdent? s = none := by
  have hrun : Text.nameRun s = [] := Text.takeWhile_of_stopsAt _ s h
  rw [readIdent?, hrun]
  rfl

/-! ### Values -/

theorem stopsAt_isBare (trivia s : List Char)
    (h : trivia ≠ [] → ∃ c r, isSpace c = true ∧ trivia = c :: r) :
    Text.StopsAt isBare (trivia ++ ';' :: s) := by
  cases trivia with
  | nil => exact Text.stopsAt_cons isBare ';' s (by decide)
  | cons c r =>
    obtain ⟨d, r', hd, heq⟩ := h (List.cons_ne_nil c r)
    obtain ⟨rfl, rfl⟩ := List.cons.inj heq
    have hblank := isBlank_of_isSpace c hd
    exact Text.stopsAt_cons isBare c _ (by simp [isBare, hblank])

theorem afterTrivia_of_bare (c : Char) (raw trivia s : List Char)
    (hbare : isBare c = true) (hslash : ∀ r, c :: raw ≠ '/' :: '*' :: r)
    (hend : trivia ≠ [] → ∃ d r, isSpace d = true ∧ trivia = d :: r) :
    afterTrivia (c :: (raw ++ (trivia ++ ';' :: s))) = c :: (raw ++ (trivia ++ ';' :: s)) := by
  have hspace : isSpace c = false := by
    cases h : isSpace c with
    | false => rfl
    | true => simp [isBare, isBlank_of_isSpace c h] at hbare
  rw [afterTrivia]
  · rw [if_neg (by simp [hspace])]
  · intro r hc heq
    cases raw with
    | cons d raw =>
      obtain ⟨rfl, _⟩ := List.cons.inj heq
      exact hslash raw (by rw [hc])
    | nil =>
      -- What follows is the semicolon or white space, and so no star.
      have hstar : Text.StopsAt isBare ('*' :: r) := by
        rw [← heq]
        exact stopsAt_isBare trivia s hend
      have hfalse := Text.head_of_stopsAt isBare '*' r hstar
      exact absurd hfalse (by decide)

theorem readValue?_of_quoted (q : Char) (raw s : List Char) (hq : q = '\x22' ∨ q = '\x27')
    (hraw : q ∉ raw) : readValue? (q :: (raw ++ q :: s)) = some (raw, s) := by
  have hin : ∀ c ∈ raw, (c != q) = true := by
    intro c hc
    rw [bne_iff_ne]
    intro heq
    subst heq
    exact hraw hc
  have hstop : Text.StopsAt (· != q) (q :: s) := Text.stopsAt_cons _ q s (by simp)
  simp only [readValue?, if_pos hq]
  rw [Text.takeWhile_append_stop _ raw _ hin hstop, Text.dropWhile_append_stop _ raw _ hin hstop]

theorem readValue?_of_bare (raw s : List Char) (hraw : ∀ c ∈ raw, isBare c = true)
    (hquote : ∀ q r, raw = q :: r → q ≠ '\x22' ∧ q ≠ '\x27')
    (hs : Text.StopsAt isBare s) (hne : ∃ c r, s = c :: r ∧ c ≠ '\x22' ∧ c ≠ '\x27') :
    readValue? (raw ++ s) = some (raw, s) := by
  have htake := Text.takeWhile_append_stop isBare raw s hraw hs
  have hdrop := Text.dropWhile_append_stop isBare raw s hraw hs
  obtain ⟨c, r, hcons, hc⟩ : ∃ c r, raw ++ s = c :: r ∧ c ≠ '\x22' ∧ c ≠ '\x27' := by
    cases raw with
    | nil => exact hne
    | cons c raw => exact ⟨c, raw ++ s, rfl, hquote c raw rfl⟩
  rw [hcons] at htake hdrop ⊢
  have hquoted : ¬ (c = '\x22' ∨ c = '\x27') := by
    intro hcase
    rcases hcase with rfl | rfl
    · exact hc.1 rfl
    · exact hc.2 rfl
  simp only [readValue?, if_neg hquoted, htake, hdrop]

/-- A value is read from end to end, and what is left leads to its semicolon. -/
theorem readValue?_of_valueText (raw : String) (value s : List Char) (h : ValueText raw value) :
    ∃ rest, readValue? (afterTrivia (value ++ s)) = some (raw.toList, rest) ∧
      afterTrivia rest = ';' :: s := by
  have hsemicolon : ∀ trivia, Trivia trivia → afterTrivia (trivia ++ ';' :: s) = ';' :: s :=
    fun trivia htrivia => afterTrivia_append_token trivia s ';' htrivia (by decide) (by decide)
  cases h with
  | quoted q raw trivia hq hraw htrivia =>
    have hassoc : q :: (raw ++ q :: (trivia ++ [';'])) ++ s =
        q :: (raw ++ q :: (trivia ++ ';' :: s)) := by
      simp
    have htoken : afterTrivia (q :: (raw ++ q :: (trivia ++ ';' :: s))) =
        q :: (raw ++ q :: (trivia ++ ';' :: s)) := by
      rcases hq with rfl | rfl
      · exact afterTrivia_of_ne _ _ (by decide) (by decide)
      · exact afterTrivia_of_ne _ _ (by decide) (by decide)
    refine ⟨trivia ++ ';' :: s, ?_, hsemicolon trivia htrivia⟩
    rw [hassoc, htoken, readValue?_of_quoted q raw _ hq hraw, String.toList_ofList]
  | bare raw trivia hraw hquote hcomment htrivia hend =>
    have hassoc : raw ++ (trivia ++ [';']) ++ s = raw ++ (trivia ++ ';' :: s) := by
      simp
    rw [hassoc, String.toList_ofList]
    cases raw with
    | nil =>
      -- The trivia after an empty value are skipped before it.
      refine ⟨';' :: s, ?_, afterTrivia_of_ne _ _ (by decide) (by decide)⟩
      rw [List.nil_append, hsemicolon trivia htrivia]
      have hstop : Text.StopsAt isBare (';' :: s) := Text.stopsAt_cons isBare ';' s (by decide)
      exact readValue?_of_bare [] (';' :: s) hraw hquote hstop ⟨';', s, rfl, by decide, by decide⟩
    | cons c raw =>
      refine ⟨trivia ++ ';' :: s, ?_, hsemicolon trivia htrivia⟩
      have hc := hraw c List.mem_cons_self
      rw [List.cons_append, afterTrivia_of_bare c raw trivia s hc hcomment hend]
      have hstop := stopsAt_isBare trivia s hend
      apply readValue?_of_bare (c :: raw) _ hraw hquote hstop
      cases trivia with
      | nil => exact ⟨';', s, rfl, by decide, by decide⟩
      | cons d trivia =>
        obtain ⟨d', r, hd, heq⟩ := hend (List.cons_ne_nil d trivia)
        obtain ⟨rfl, rfl⟩ := List.cons.inj heq
        refine ⟨d, trivia ++ ';' :: s, rfl, ?_, ?_⟩
        · intro heq
          subst heq
          exact absurd hd (by decide)
        · intro heq
          subst heq
          exact absurd hd (by decide)

/-! ### Declarations -/

theorem stopsAt_colon (before s : List Char) (h : Trivia before) :
    Text.StopsAt Text.isNameChar (before ++ ':' :: s) :=
  h.stopsAt _ _ _ failsOnTrivia_nameChar (Text.stopsAt_cons _ ':' s (by decide))

theorem startsVariable_of_pairText (name raw : String) (pair s : List Char)
    (h : PairText name raw pair) : startsVariable (pair ++ s) = true := by
  obtain ⟨before, after, value, hname, hbefore, _, _⟩ := h
  have hassoc : name.toList ++ (before ++ ':' :: (after ++ value)) ++ s =
      name.toList ++ (before ++ ':' :: (after ++ value ++ s)) := by
    simp
  have hlongest := hname.longestName name _ (stopsAt_colon before (after ++ value ++ s) hbefore)
  have hcolon := afterTrivia_append_token before (after ++ value ++ s) ':' hbefore (by decide)
    (by decide)
  rw [hassoc, startsVariable, readIdent?_of_longestName _ _ hlongest]
  simp only [hcolon]
  rfl

theorem readPair_of_pairText (name raw : String) (pair s : List Char)
    (h : PairText name raw pair) : readPair (pair ++ s) = .ok (name, raw, ';' :: s) := by
  obtain ⟨before, after, value, hname, hbefore, hafter, hvalue⟩ := h
  have hassoc : name.toList ++ (before ++ ':' :: (after ++ value)) ++ s =
      name.toList ++ (before ++ ':' :: (after ++ (value ++ s))) := by
    simp
  have hlongest := hname.longestName name _ (stopsAt_colon before (after ++ (value ++ s)) hbefore)
  have hcolon := afterTrivia_append_token before (after ++ (value ++ s)) ':' hbefore (by decide)
    (by decide)
  obtain ⟨rest, hread, hrest⟩ := readValue?_of_valueText raw value s hvalue
  rw [hassoc, readPair, readIdent?_of_longestName _ _ hlongest]
  simp only [hcolon, afterTrivia_append after _ hafter, hread, hrest, String.ofList_toList]

end FrameUI.Style
