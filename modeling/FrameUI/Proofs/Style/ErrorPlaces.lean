import FrameUI.Proofs.Style.AtRules
import FrameUI.Proofs.Style.RulePlaces
import FrameUI.Proofs.Text.Positions

/-!
# The places of errors in stylesheets

Whatever the reader skips or takes, it leaves a suffix of the text it was given, so the rest of the
text at a failure tells its position in the whole source. Each cause says something of that rest.
Step by step this holds of the reader at every place, and by induction of a whole reading. Main
statement: `exists_place_of_malformed`.
-/

namespace FrameUI.Style

/-! ### What the reader leaves -/

theorem readIdent?_suffix (s name rest : List Char) (h : readIdent? s = some (name, rest)) :
    rest <:+ s := by
  obtain ⟨_, rfl⟩ := readIdent?_sound s name rest h
  exact List.suffix_append name rest

theorem readValue?_suffix (s value rest : List Char) (h : readValue? s = some (value, rest)) :
    rest <:+ s := by
  unfold readValue? at h
  split at h
  · cases h
    exact List.suffix_refl []
  · rename_i q r
    split at h
    · split at h
      · rename_i d behind hdrop
        cases h
        have hclosed := List.dropWhile_suffix (l := r) (· != q)
        rw [hdrop] at hclosed
        exact ((List.suffix_cons d _).trans hclosed).trans (List.suffix_cons q r)
      · cases h
    · cases h
      exact List.dropWhile_suffix isBare

theorem openScope?_suffix (s rest : List Char) (h : openScope? s = some rest) : rest <:+ s := by
  obtain ⟨after, rfl, hbrace⟩ := block_of_openScope? s rest h
  have hafter := afterTrivia_suffix after
  rw [hbrace] at hafter
  exact ((List.suffix_cons '{' rest).trans hafter).trans (List.suffix_append scopeWord after)

theorem readHead_suffix (s : List Char) (text : String) (selector : Selector) (rest : List Char)
    (h : readHead s = .ok (text, selector, rest)) : rest <:+ s := by
  obtain ⟨head, rfl, _⟩ := head_of_readHead s text selector rest h
  exact (List.suffix_cons '{' rest).trans (List.suffix_append head _)

theorem readPair_suffix (s : List Char) (name raw : String) (rest : List Char)
    (h : readPair s = .ok (name, raw, rest)) : rest <:+ s := by
  unfold readPair at h
  split at h
  · cases h
  · rename_i ident afterIdent hident
    have hcolon := (afterTrivia_suffix afterIdent).trans (readIdent?_suffix s ident _ hident)
    split at h
    · rename_i r hr
      rw [hr] at hcolon
      split at h
      · cases h
      · rename_i value behind hvalue
        cases h
        have hbehind := (readValue?_suffix _ value behind hvalue).trans (afterTrivia_suffix r)
        exact ((afterTrivia_suffix behind).trans hbehind).trans
          ((List.suffix_cons ':' r).trans hcolon)
    · cases h

/-- A step that goes on leaves a suffix of its text. -/
theorem step_suffix (p p' : Place) (s rest : List Char) (ms : List Mark)
    (h : step p s = .go ms p' rest) : rest <:+ s := by
  refine List.IsSuffix.trans ?_ (afterTrivia_suffix s)
  cases p with
  | top =>
    simp only [step, stepTop] at h
    split at h
    · cases h
    · rename_i c r hs
      rw [hs]
      split at h
      · rename_i body hopen
        cases h
        exact openScope?_suffix _ _ hopen
      · split at h
        · rename_i hat
          cases h
          rw [hat]
          exact afterAtRule_suffix r
        · unfold stepHead at h
          split at h
          · cases h
          · rename_i text selector body hhead
            cases h
            exact readHead_suffix _ text selector _ hhead
  | scope =>
    rcases stepScope_cases _ rest ms p' h with
      ⟨hclose, _⟩ | ⟨name, raw, hpair, _⟩ | ⟨text, selector, hhead, _⟩
    · rw [hclose]
      exact List.suffix_cons '}' rest
    · exact (List.suffix_cons ';' rest).trans (readPair_suffix _ name raw _ hpair)
    · exact readHead_suffix _ text selector rest hhead
  | rule inScope =>
    rcases stepRule_cases inScope _ rest ms p' h with ⟨hclose, _⟩ | ⟨name, raw, hpair, _⟩
    · rw [hclose]
      exact List.suffix_cons '}' rest
    · exact (List.suffix_cons ';' rest).trans (readPair_suffix _ name raw _ hpair)

/-- What is left after a run of steps is a suffix of the text. -/
theorem Reads.isSuffix {p p' : Place} {s rest : List Char} {ms : List Mark}
    (h : Reads p s ms p' rest) : rest <:+ s := by
  induction h with
  | nil p s => exact List.suffix_refl s
  | step p p' p'' s rest rest' ms more hstep _ ih =>
    exact ih.trans (step_suffix p p' s rest ms hstep)

/-! ### What causes say -/

/-- What a cause says of the text that stands at its place. -/
def Cause.HoldsOf (rest : List Char) : Cause → Prop
  | .unclosedScope | .unclosedRule | .missingBody => rest = []
  | .unclosedVariable | .unclosedDeclaration => rest.head? ≠ some ';'
  | .expectedColon => rest.head? ≠ some ':'
  | .expectedProperty => ∀ c ∈ rest.head?, Text.isNameChar c = false
  | .unterminatedValue => ∃ q r, rest = q :: r ∧ (q = '\x22' ∨ q = '\x27') ∧ q ∉ r
  | .invalidSelector text =>
    ∃ head body, rest = head ++ '{' :: body ∧ '{' ∉ head ∧
      text = String.ofList (Text.trim (blankComments head)) ∧
      Selector.parse? (Text.trim (blankComments head)) = none

/-- A failure at a suffix of a text, of which its cause is true. -/
structure Failure.FitsIn (f : Failure) (s : List Char) : Prop where
  suffix : f.rest <:+ s
  holds : f.cause.HoldsOf f.rest

theorem Failure.FitsIn.of_suffix {f : Failure} {s t : List Char} (h : f.FitsIn s) (ht : s <:+ t) :
    f.FitsIn t :=
  ⟨h.suffix.trans ht, h.holds⟩

theorem head?_ne_of_forall {c : Char} {s : List Char} (h : ∀ r, s = c :: r → False) :
    s.head? ≠ some c := by
  intro hc
  obtain ⟨r, hr⟩ := List.head?_eq_some_iff.mp hc
  exact h r hr

theorem stopsAt_of_readIdent? (s : List Char) (h : readIdent? s = none) :
    Text.StopsAt Text.isNameChar s := by
  unfold readIdent? at h
  split at h
  · rename_i hempty
    exact Text.stopsAt_of_nameRun s hempty
  · cases h

theorem quote_of_readValue? (s : List Char) (h : readValue? s = none) :
    ∃ q r, s = q :: r ∧ (q = '\x22' ∨ q = '\x27') ∧ q ∉ r := by
  unfold readValue? at h
  split at h
  · cases h
  · rename_i q r
    split at h
    · rename_i hquote
      split at h
      · cases h
      · rename_i hopen
        refine ⟨q, r, rfl, hquote, fun hmem => ?_⟩
        simpa using List.dropWhile_eq_nil_iff.mp hopen q hmem
    · cases h

theorem fits_of_readHead (s : List Char) (f : Failure) (h : readHead s = .error f) :
    f.FitsIn s := by
  rw [readHead_eq] at h
  cases hdrop : s.dropWhile (· != '{') with
  | nil =>
    rw [hdrop] at h
    cases h
    exact ⟨List.nil_suffix, rfl⟩
  | cons c body =>
    obtain ⟨hs, hc⟩ := Text.eq_of_dropWhile_eq_cons _ s body c hdrop
    obtain rfl : c = '{' := by simpa using hc
    rw [hdrop] at h
    simp only [headOf] at h
    split at h
    · cases h
    · rename_i hselector
      cases h
      refine ⟨List.suffix_refl s, _, body, hs, ?_, rfl, hselector⟩
      intro hmem
      exact absurd (Text.all_of_mem_takeWhile (· != '{') s '{' hmem) (by decide)

theorem fits_of_readPair (s : List Char) (f : Failure) (h : readPair s = .error f) :
    f.FitsIn s := by
  unfold readPair at h
  split at h
  · rename_i hident
    cases h
    exact ⟨List.suffix_refl s, stopsAt_of_readIdent? s hident⟩
  · rename_i ident afterIdent hident
    have hcolon := (afterTrivia_suffix afterIdent).trans (readIdent?_suffix s ident _ hident)
    split at h
    · rename_i r hr
      rw [hr] at hcolon
      split at h
      · rename_i hvalue
        cases h
        exact ⟨(afterTrivia_suffix r).trans ((List.suffix_cons ':' r).trans hcolon),
          quote_of_readValue? _ hvalue⟩
      · cases h
    · rename_i hne
      cases h
      exact ⟨hcolon, head?_ne_of_forall hne⟩

/-! ### Steps and runs -/

theorem fits_of_stepHead (inScope : Bool) (s : List Char) (ms : List Mark) (f : Failure)
    (h : stepHead inScope s = .stop ms (some f)) : f.FitsIn s := by
  unfold stepHead at h
  split at h
  · rename_i hread
    cases h
    exact fits_of_readHead s _ hread
  · cases h

/-- A step that fails does so at a suffix of its text, of which the cause is true. -/
theorem fits_of_step (p : Place) (s : List Char) (ms : List Mark) (f : Failure)
    (h : step p s = .stop ms (some f)) : f.FitsIn s := by
  refine Failure.FitsIn.of_suffix ?_ (afterTrivia_suffix s)
  cases p with
  | top =>
    simp only [step, stepTop] at h
    split at h
    · cases h
    · rename_i c r hs
      rw [hs]
      split at h
      · cases h
      · split at h
        · cases h
        · exact fits_of_stepHead false _ ms f h
  | scope =>
    simp only [step, stepScope] at h
    split at h
    · cases h
      exact ⟨List.nil_suffix, rfl⟩
    · rename_i c r hs
      rw [hs]
      split at h
      · cases h
      · split at h
        · split at h
          · rename_i hpair
            cases h
            exact fits_of_readPair _ _ hpair
          · rename_i name raw rest hpair
            split at h
            · cases h
            · rename_i hne
              cases h
              exact ⟨readPair_suffix _ name raw rest hpair, head?_ne_of_forall hne⟩
        · exact fits_of_stepHead true _ ms f h
  | rule inScope =>
    simp only [step, stepRule] at h
    split at h
    · cases h
      exact ⟨List.nil_suffix, rfl⟩
    · rename_i c r hs
      rw [hs]
      split at h
      · cases h
      · split at h
        · rename_i hpair
          cases h
          exact fits_of_readPair _ _ hpair
        · rename_i name raw rest hpair
          split at h
          · cases h
          · rename_i hne
            cases h
            exact ⟨readPair_suffix _ name raw rest hpair, head?_ne_of_forall hne⟩

/-- A reading that fails has come, step by step, to a text from where it cannot go on. -/
theorem exists_reads_of_failure (p : Place) (s : List Char) (f : Failure)
    (h : (readFrom p s).failure = some f) :
    ∃ marks p' rest last, Reads p s marks p' rest ∧ step p' rest = .stop last (some f) := by
  cases hstep : step p s with
  | stop last failure =>
    rw [readFrom_of_stop p s last failure hstep] at h
    obtain rfl : failure = some f := h
    exact ⟨[], p, s, last, .nil p s, hstep⟩
  | go ms next rest =>
    have hlt := step_rest_lt p next s rest ms hstep
    rw [readFrom_of_go p next s rest ms hstep] at h
    obtain ⟨marks, p', rest', last, hreads, hstop⟩ := exists_reads_of_failure next rest f h
    exact ⟨ms ++ marks, p', rest', last, .step p next p' s rest rest' ms marks hstep hreads, hstop⟩
termination_by s.length

/-- The failure of a reading stands at a suffix of the text, and its cause is true there. -/
theorem fits_of_readFrom (p : Place) (s : List Char) (f : Failure)
    (h : (readFrom p s).failure = some f) : f.FitsIn s := by
  obtain ⟨marks, p', rest, last, hreads, hstop⟩ := exists_reads_of_failure p s f h
  exact (fits_of_step p' rest last f hstop).of_suffix hreads.isSuffix

/-! ### Positions of errors -/

/-- An error that is not one of validation is the failure of the reading. -/
theorem failure_of_parse_malformed {v : Validator} {source : String} {cause : Cause}
    {position : Text.Position}
    (h : (parse v source).outcome = .error (.malformed cause position)) :
    ∃ rest, (read source.toList).failure = some ⟨cause, rest⟩ ∧
      position = .ofSuffix source.toList rest := by
  rw [outcome_parse] at h
  cases htake : Checked.outcome (Draft.empty.takeAll v (read source.toList).marks) with
  | error e =>
    rw [htake] at h
    cases h
  | ok draft =>
    rw [htake] at h
    cases hfailure : (read source.toList).failure with
    | none =>
      rw [hfailure] at h
      cases h
    | some f =>
      rw [hfailure] at h
      cases h
      exact ⟨f.rest, rfl, rfl⟩

/-- The rest of the source that reading stops with is a suffix of it, the position of the error is
the line and the column at which that begins, and what the error says is true there. -/
theorem exists_place_of_malformed (v : Validator) (source : String) (cause : Cause)
    (position : Text.Position)
    (h : (parse v source).outcome = .error (.malformed cause position)) :
    ∃ before rest, source.toList = before ++ rest ∧
      (read source.toList).failure = some ⟨cause, rest⟩ ∧
      position = ⟨1 + before.count '\n', 1 + (Text.lastLine before).length⟩ ∧
      cause.HoldsOf rest := by
  obtain ⟨rest, hfailure, hposition⟩ := failure_of_parse_malformed h
  obtain ⟨⟨before, hsource⟩, hholds⟩ := fits_of_readFrom .top source.toList _ hfailure
  rw [← hsource, Text.Position.ofSuffix_append, Text.Position.after_eq] at hposition
  exact ⟨before, rest, hsource.symm, hfailure, hposition, hholds⟩

/-- A sheet with a value on its fourth line whose quote is not closed. -/
def unclosedValue : String :=
  "scope \x7b\n  ink: red;\n\x7d\n/* é */ B \x7b w: 'x; \x7d"

theorem exists_place_of_malformed_unclosedValue :
    (parse .lenient unclosedValue).outcome = .error (.malformed .unterminatedValue ⟨4, 16⟩) ∧
    ∃ before rest, unclosedValue.toList = before ++ rest ∧
      (read unclosedValue.toList).failure = some ⟨.unterminatedValue, rest⟩ ∧
      (⟨4, 16⟩ : Text.Position) = ⟨1 + before.count '\n', 1 + (Text.lastLine before).length⟩ ∧
      Cause.unterminatedValue.HoldsOf rest := by
  have hparse : (parse .lenient unclosedValue).outcome =
      .error (.malformed .unterminatedValue ⟨4, 16⟩) := by decide +kernel
  exact ⟨hparse, exists_place_of_malformed .lenient unclosedValue _ _ hparse⟩

end FrameUI.Style
