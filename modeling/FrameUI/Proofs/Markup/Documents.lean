import FrameUI.Proofs.Markup.Soundness

/-!
# Documents and the grammar

Lenient parsing accepts exactly the documents of the grammar, and gives the tree that the
document denotes.
-/

namespace FrameUI.Markup

open Assembly

theorem outcome_parse_lenient (source : String) :
    (parse .lenient source).outcome =
      match (readFrom .start (Text.trim source.toList)).failure with
      | some f => .error (.malformed f.cause (.ofSuffix (Text.trim source.toList) f.rest))
      | none => .ok (((readFrom .start (Text.trim source.toList)).events.foldl grow
          Assembly.empty).root.getD default) := by
  have htake := outcome_takeAll_lenient Assembly.empty
    (readFrom .start (Text.trim source.toList)).events
  unfold parse
  rw [Checked.outcome_bind_of_ok _ _ _ (by rw [Checked.outcome_mapError, htake]; rfl)]
  cases (readFrom .start (Text.trim source.toList)).failure with
  | none => rfl
  | some f => rfl

theorem readFrom_start_angle (s : List Char) :
    readFrom .start ('<' :: s) = (enter [] s).reading := by
  rw [readFrom_eq_reading]
  rfl

theorem step_start_of_ne (c : Char) (s : List Char) (h : c ≠ '<') :
    step .start (c :: s) = .stop [] (some ⟨.expectedOpening, c :: s⟩) := by
  unfold step
  split
  · rename_i heq
    cases heq
    exact absurd rfl h
  · rfl
  · rename_i heq
    cases heq
  · rename_i heq
    cases heq

theorem failure_readFrom_finished (s : List Char) :
    (readFrom .finished s).failure = none ↔ Text.AllBlank s := by
  rw [readFrom_eq_reading]
  cases h : Text.trimStart s with
  | nil =>
    simp only [step, h, Step.reading, true_iff]
    exact Text.allBlank_of_trimStart s h
  | cons c r =>
    simp only [step, h, Step.reading, reduceCtorEq, false_iff]
    intro hall
    rw [Text.trimStart_of_allBlank s hall] at h
    cases h

theorem readFrom_finished_nil : readFrom .finished [] = ⟨[], none⟩ := by
  rw [readFrom_eq_reading]
  rfl

/-- What the grammar calls a document is parsed to the tree it denotes. -/
theorem outcome_parse_of_documentText (source : String) (root : Element)
    (h : DocumentText (Text.trim source.toList) root) :
    (parse .lenient source).outcome = .ok root := by
  obtain ⟨helement, hname, hdepth⟩ := h
  obtain ⟨c, r, heq, _⟩ := exists_nameChar_of_elementText _ root helement
  have henter := enter_of_elementText _ root helement [] [] (by simpa using hdepth)
  rw [heq, List.tail_cons, List.append_nil] at henter
  obtain ⟨events, hmakes, hread⟩ := henter
  have hstart : readFrom .start (Text.trim source.toList) = ⟨events, none⟩ := by
    rw [heq, readFrom_start_angle, hread]
    simp only [leave, hname, if_true, Step.reading, readFrom_finished_nil]
    simp [Reading.after]
  rw [outcome_parse_lenient, hstart]
  have hroot := hmakes Assembly.empty
  simp only [hroot]
  rfl

/-- A text that is read without failure is a document. -/
theorem documentText_of_readFrom (source : List Char)
    (h : (readFrom .start (Text.trim source)).failure = none) :
    ∃ root, DocumentText (Text.trim source) root := by
  cases htrim : Text.trim source with
  | nil =>
    rw [htrim, readFrom_eq_reading] at h
    cases h
  | cons c s =>
    by_cases hc : c = '<'
    · subst hc
      rw [htrim, readFrom_start_angle] at h
      obtain ⟨text, e, rest, hs, he, hdepth⟩ :=
        elementText_of_enter s.length (childrenSound _) [] s (by omega) (by decide) h
      have hread := enter_of_elementText _ e he [] rest hdepth
      obtain ⟨events, _, hread⟩ := hread
      rw [List.tail_cons, ← hs] at hread
      rw [hread, Reading.failure_after] at h
      by_cases hname : e.tag = rootName
      · simp only [leave, hname, if_true, Step.reading, Reading.failure_after] at h
        have hblank := (failure_readFrom_finished rest).mp h
        have hend : Text.trimEnd (Text.trimStart source) = ('<' :: text) ++ rest := by
          rw [List.cons_append, ← hs]
          exact htrim
        have hnil := Text.eq_nil_of_trimEnd_append _ _ rest hend hblank
        rw [hnil, List.append_nil] at hs
        refine ⟨e, ?_, hname, by simpa using hdepth⟩
        rw [hs]
        exact he
      · simp only [leave, hname, if_false, Step.reading, reduceCtorEq] at h
    · rw [htrim, readFrom_eq_reading] at h
      rw [step_start_of_ne c s hc] at h
      cases h

/-- Lenient parsing gives a tree exactly when the source without the blanks around it is a
document, and then the tree is the one that the document denotes. -/
theorem parse_ok_iff_documentText (source : String) (root : Element) :
    (parse .lenient source).outcome = .ok root ↔
      DocumentText (Text.trim source.toList) root := by
  constructor
  · intro h
    have hfailure : (readFrom .start (Text.trim source.toList)).failure = none := by
      rw [outcome_parse_lenient] at h
      split at h
      · cases h
      · assumption
    obtain ⟨root', hroot'⟩ := documentText_of_readFrom source.toList hfailure
    have heq := outcome_parse_of_documentText source root' hroot'
    rw [heq] at h
    cases h
    exact hroot'
  · exact outcome_parse_of_documentText source root

end FrameUI.Markup
