import FrameUI.Proofs.Markup.Failing
import FrameUI.Proofs.Text.Positions

/-!
# The places of errors

An error of a document carries a position. It is the position of a place in the document, counted
from the first character that is not a blank, and what the error says is true of that place. Blanks
in front of the document do not take part in the count, so the same error stands at the same
position whatever blanks are put in front. Main statements: `exists_place_of_parse` and
`parse_blanks_append`.
-/

namespace FrameUI.Markup

/-! ### What errors say -/

/-- What an error says of the text before its place and of the text that stands there. -/
def Cause.HoldsOf (before rest : List Char) : Cause → Prop
  | .expectedOpening => before = [] ∧ ¬ ['<'] <+: rest
  | .expectedToken token => ¬ token.toList <+: rest
  | .emptyName _ => ∀ c ∈ rest.head?, Text.isNameChar c = false
  | .unquotedValue => ∀ c ∈ rest.head?, ¬ IsQuote c
  | .unclosedValue => rest = []
  | .mismatchedClosing expected found =>
    (∃ outer ran content, BeforeChild expected outer ran content ∧
      before = content ++ ['<', '/']) ∧
    found = String.ofList (Text.nameRun rest) ∧ found ≠ expected
  | .wrongRoot found =>
    ∃ root, ElementText before root ∧ root.tag = found ∧ found ≠ rootName
  | .tooDeep =>
    OpensElement rest ∧
    ∃ tag outer ran, BeforeChild tag outer ran before ∧ (tag :: outer).length = maxDepth
  | .trailingContent =>
    (∃ text blanks root, ElementText text root ∧ root.tag = rootName ∧ Text.AllBlank blanks ∧
      before = text ++ blanks) ∧
    ∃ c ∈ rest.head?, Text.isBlank c = false

theorem not_prefix_of_stopsAt {c : Char} {s : List Char} (h : Text.StopsAt (· == c) s) :
    ¬ [c] <+: s := by
  rintro ⟨r, rfl⟩
  have hc := Text.head_of_stopsAt _ c r h
  simp at hc

theorem closing_not_prefix_nil : ¬ "</".toList <+: [] := by decide

theorem AttributeFails.holdsOf {cause : Cause} {part rest : List Char}
    (h : AttributeFails cause part rest) (before : List Char) : cause.HoldsOf before rest := by
  cases h with
  | name _ hstops => exact hstops
  | equals _ _ _ hstops => exact not_prefix_of_stopsAt hstops
  | quote _ _ _ hquote => exact hquote
  | value _ _ _ _ _ _ => exact rfl

theorem OpeningFails.holdsOf {cause : Cause} {front rest : List Char}
    (h : OpeningFails cause front rest) (before : List Char) : cause.HoldsOf before rest := by
  cases h with
  | name _ hstops => exact hstops
  | inside _ _ _ _ _ _ hfails => exact hfails.holdsOf before
  | ending _ _ _ hangle _ => exact hangle

theorem FailsAt.holdsOf {cause : Cause} {before rest : List Char}
    (h : FailsAt cause before rest) : cause.HoldsOf before rest := by
  cases h with
  | start _ hstops => exact ⟨rfl, not_prefix_of_stopsAt hstops⟩
  | opening _ _ _ _ _ _ hfails => exact hfails.holdsOf _
  | nested tag outer ran _ _ hbefore hdepth hopens =>
    exact ⟨hopens, tag, outer, ran, hbefore, hdepth⟩
  | ended _ _ _ _ _ => exact closing_not_prefix_nil
  | unended _ _ _ _ _ _ _ => exact closing_not_prefix_nil
  | closingName tag outer ran content _ hbefore hfound =>
    exact ⟨⟨outer, ran, content, hbefore, rfl⟩, rfl, hfound⟩
  | closingEnd _ _ _ _ _ _ _ hangle => exact hangle
  | root _ _ root htext hname => exact ⟨root, htext, rfl, hname⟩
  | trailing text blanks _ c root htext hname hblanks hc =>
    exact ⟨⟨text, blanks, root, htext, hname, hblanks, rfl⟩, c, rfl, hc⟩

/-! ### Positions of errors -/

/-- An error that is not one of validation is the failure of the reading. -/
theorem failure_of_parse_malformed {v : Validator} {source : String} {cause : Cause}
    {position : Text.Position}
    (h : (parse v source).outcome = .error (.malformed cause position)) :
    ∃ rest, (readFrom .start (Text.trim source.toList)).failure = some ⟨cause, rest⟩ ∧
      position = .ofSuffix (Text.trim source.toList) rest := by
  rw [outcome_parse] at h
  cases htake : (Assembly.empty.takeAll v
      (readFrom .start (Text.trim source.toList)).events).outcome with
  | error e =>
    rw [htake] at h
    cases h
  | ok assembly =>
    rw [htake] at h
    cases hfailure : (readFrom .start (Text.trim source.toList)).failure with
    | none =>
      rw [hfailure] at h
      cases h
    | some f =>
      rw [hfailure] at h
      cases h
      exact ⟨f.rest, rfl, rfl⟩

/-- An error stands at a place where reading had to stop for its cause. -/
theorem fails_of_parse_malformed {v : Validator} {source : String} {cause : Cause}
    {position : Text.Position}
    (h : (parse v source).outcome = .error (.malformed cause position)) :
    ∃ before rest, Text.trim source.toList = before ++ rest ∧ position = .after before ∧
      FailsAt cause before rest := by
  obtain ⟨rest, hfailure, rfl⟩ := failure_of_parse_malformed h
  obtain ⟨before, hread, hfails⟩ := fails_of_readFrom (.start _) hfailure
  rw [List.nil_append] at hfails
  exact ⟨before, rest, hread, by rw [hread, Text.Position.ofSuffix_append], hfails⟩

theorem outcome_parse_of_failure (source : String) (f : Failure)
    (h : (readFrom .start (Text.trim source.toList)).failure = some f) :
    (parse .lenient source).outcome =
      .error (.malformed f.cause (.ofSuffix (Text.trim source.toList) f.rest)) := by
  rw [outcome_parse_lenient, h]

/-- The position of an error is the line and the column of a place in the document, without the
blanks around it, at which reading had to stop for the cause that the error names. -/
theorem exists_place_of_parse (v : Validator) (source : String) (cause : Cause)
    (position : Text.Position)
    (h : (parse v source).outcome = .error (.malformed cause position)) :
    ∃ before rest, Text.trim source.toList = before ++ rest ∧
      position = ⟨1 + before.count '\n', 1 + (Text.lastLine before).length⟩ ∧
      FailsAt cause before rest ∧ cause.HoldsOf before rest := by
  obtain ⟨before, rest, hread, hposition, hfails⟩ := fails_of_parse_malformed h
  rw [Text.Position.after_eq] at hposition
  exact ⟨before, rest, hread, hposition, hfails, hfails.holdsOf⟩

/-- A document on four lines that closes the wrong element. -/
def wronglyClosed : String := "\n<App>\n  <!-- é --> <Window title='a\nb'>\n</App>"

theorem exists_place_of_parse_wronglyClosed :
    (parse .lenient wronglyClosed).outcome =
      .error (.malformed (.mismatchedClosing "Window" "App") ⟨4, 3⟩) ∧
    ∃ before rest, Text.trim wronglyClosed.toList = before ++ rest ∧
      (⟨4, 3⟩ : Text.Position) = ⟨1 + before.count '\n', 1 + (Text.lastLine before).length⟩ ∧
      FailsAt (.mismatchedClosing "Window" "App") before rest ∧
      (Cause.mismatchedClosing "Window" "App").HoldsOf before rest := by
  have hparse : (parse .lenient wronglyClosed).outcome =
      .error (.malformed (.mismatchedClosing "Window" "App") ⟨4, 3⟩) :=
    outcome_parse_of_failure wronglyClosed
      ⟨.mismatchedClosing "Window" "App", "App>".toList⟩ (by decide +kernel)
  exact ⟨hparse, exists_place_of_parse .lenient wronglyClosed _ _ hparse⟩

/-! ### Blanks in front of a document -/

theorem outcome_parse_unclosedRoot : (parse .lenient "<App>").outcome =
    .error (.malformed (.expectedToken "</") ⟨1, 6⟩) :=
  outcome_parse_of_failure "<App>" ⟨.expectedToken "</", []⟩ (by decide +kernel)

/-- Blanks in front of a document leave an error and its position alone. So the position is not the
one in the source: it lacks what the blanks in front of the document add to it. It comes to the
same only where they hold no newline and, for an error on the first line, nothing at all. -/
theorem parse_blanks_append (v : Validator) (blanks source : String) (cause : Cause)
    (position : Text.Position) (hblanks : Text.AllBlank blanks.toList)
    (h : (parse v source).outcome = .error (.malformed cause position)) :
    (parse v (blanks ++ source)).outcome = .error (.malformed cause position) ∧
    (position.behind blanks.toList = position ↔
      '\n' ∉ blanks.toList ∧ (position.line = 1 → blanks.toList = [])) ∧
    ∃ lead before rest trail, source.toList = lead ++ (before ++ rest ++ trail) ∧
      Text.AllBlank lead ∧ Text.AllBlank trail ∧ FailsAt cause before rest ∧
      position = .after before ∧
      Text.Position.after (blanks.toList ++ (lead ++ before)) =
        (position.behind lead).behind blanks.toList := by
  refine ⟨?_, Text.Position.behind_eq_self_iff _ _, ?_⟩
  · have htrim : Text.trim (blanks ++ source).toList = Text.trim source.toList := by
      rw [String.toList_append, Text.trim_blanks_append _ _ hblanks]
    rw [← h]
    simp only [parse, htrim]
  · obtain ⟨lead, trail, hlead, htrail, hsource⟩ := Text.exists_blanks_trim source.toList
    obtain ⟨before, rest, hread, hposition, hfails⟩ := fails_of_parse_malformed h
    rw [hread] at hsource
    refine ⟨lead, before, rest, trail, hsource, hlead, htrail, hfails, hposition, ?_⟩
    rw [Text.Position.after_append, Text.Position.after_append, hposition]

theorem parse_blanks_append_indented :
    Text.AllBlank "\n  ".toList ∧
    (parse .lenient "<App>").outcome = .error (.malformed (.expectedToken "</") ⟨1, 6⟩) ∧
    (parse .lenient ("\n  " ++ "<App>")).outcome =
      .error (.malformed (.expectedToken "</") ⟨1, 6⟩) ∧
    (Text.Position.behind "\n  ".toList ⟨1, 6⟩ = ⟨1, 6⟩ ↔
      '\n' ∉ "\n  ".toList ∧ ((1 : Nat) = 1 → "\n  ".toList = [])) ∧
    ∃ lead before rest trail, "<App>".toList = lead ++ (before ++ rest ++ trail) ∧
      Text.AllBlank lead ∧ Text.AllBlank trail ∧ FailsAt (.expectedToken "</") before rest ∧
      ⟨1, 6⟩ = Text.Position.after before ∧
      Text.Position.after ("\n  ".toList ++ (lead ++ before)) =
        (Text.Position.behind lead ⟨1, 6⟩).behind "\n  ".toList := by
  have hblanks : Text.AllBlank "\n  ".toList := List.all_eq_true.mp rfl
  exact ⟨hblanks, outcome_parse_unclosedRoot,
    parse_blanks_append .lenient "\n  " "<App>" _ _ hblanks outcome_parse_unclosedRoot⟩

/-- Behind a newline and two blanks, what is missing at the eighth column of the second line is
reported at the sixth column of the first. -/
theorem exists_position_not_behind : ∃ (v : Validator) (blanks source : String) (cause : Cause)
    (position : Text.Position), Text.AllBlank blanks.toList ∧
      (parse v source).outcome = .error (.malformed cause position) ∧
      (parse v (blanks ++ source)).outcome ≠
        .error (.malformed cause (position.behind blanks.toList)) := by
  have hindented : (parse .lenient ("\n  " ++ "<App>")).outcome =
      .error (.malformed (.expectedToken "</") ⟨1, 6⟩) :=
    outcome_parse_of_failure ("\n  " ++ "<App>") ⟨.expectedToken "</", []⟩ (by decide +kernel)
  refine ⟨.lenient, "\n  ", "<App>", _, _, List.all_eq_true.mp rfl,
    outcome_parse_unclosedRoot, ?_⟩
  rw [hindented]
  intro heq
  have hposition : (⟨1, 6⟩ : Text.Position) = ⟨2, 8⟩ := by
    injection heq with herror
    injection herror
  exact absurd hposition (by decide)

end FrameUI.Markup
