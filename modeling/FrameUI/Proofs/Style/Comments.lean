import FrameUI.Proofs.Style.Spots

/-!
# Comments as white space

A comment can stand for a blank wherever the blank does not stand in a comment or in a value.
Main statement: where one more blank changes nothing, neither does a comment
(`keepsSheet_comment`). In a quoted value a comment is text like any other.
-/

namespace FrameUI.Style

section Steps

variable {g after : List Char}

/-! ### Steps -/

/-- Two steps: the first fails, or both are the same but for what they leave. -/
inductive AlikeStep (g after : List Char) : Step → Step → Prop
  | fails (ms : List Mark) (e : Failure) (other : Step) :
      AlikeStep g after (.stop ms (some e)) other
  | stops (ms : List Mark) : AlikeStep g after (.stop ms none) (.stop ms none)
  | goes (ms : List Mark) (p : Place) (rest rest' : List Char) : AlikeRest g after rest rest' →
      AlikeStep g after (.go ms p rest) (.go ms p rest')

theorem AlikeStep.self (st : Step)
    (h : ∀ ms p rest, st = .go ms p rest → rest.length ≤ after.length) :
    AlikeStep g after st st := by
  cases st with
  | stop ms failure =>
    cases failure with
    | none => exact .stops ms
    | some e => exact .fails ms e _
  | go ms p rest => exact .goes ms p rest rest (.behind rest (h ms p rest rfl))

theorem stepHead_alike (hg : Filler g) (inScope : Bool) (s after : List Char)
    (h : (headSpot s).admits g = true) :
    AlikeStep g after (stepHead inScope (s ++ (blank ++ after)))
      (stepHead inScope (s ++ (g ++ after))) := by
  have hread := readHead_alike hg s after h
  unfold stepHead
  generalize readHead (s ++ (blank ++ after)) = read at hread ⊢
  generalize readHead (s ++ (g ++ after)) = read' at hread ⊢
  cases hread with
  | fails e => exact .fails _ _ _
  | reads text selector rest rest' hrest => exact .goes _ _ _ _ hrest

theorem stepTop_alike (hg : Filler g) (c : Char) (r : List Char)
    (h : (topSpot (c :: r) after).admits g = true) :
    AlikeStep g after (stepTop (c :: (r ++ (blank ++ after))))
      (stepTop (c :: (r ++ (g ++ after)))) := by
  unfold topSpot at h
  split at h
  · cases h
  · rename_i hahead
    have hopen := openScope?_alike hg (c :: r) after (Bool.eq_false_iff.mpr hahead)
    have hhead := stepHead_alike hg false (c :: r) after
    simp only [List.cons_append] at hopen hhead h
    simp only [stepTop]
    generalize openScope? (c :: (r ++ (blank ++ after))) = opened at hopen h ⊢
    generalize openScope? (c :: (r ++ (g ++ after))) = opened' at hopen ⊢
    cases hopen with
    | some hrest => exact .goes _ _ _ _ hrest
    | none =>
      simp only [List.head?_cons, Option.some.injEq] at h
      by_cases hat : c = '@'
      · subst hat
        exact .goes _ _ _ _ (afterAtRule_alike r h)
      · rw [if_neg hat] at h
        simp only [if_neg hat]
        exact hhead h

/-- The step behind a pair: it goes on if its semicolon is there, and fails if not. -/
def stepPair (mark : String → String → Mark) (missing : String → String → List Mark)
    (cause : Cause) (p : Place) (read : Except Failure (String × String × List Char)) : Step :=
  match read with
  | .error f => .stop [] (some f)
  | .ok (name, raw, rest) =>
    match rest with
    | ';' :: rest => .go [mark name raw] p rest
    | _ => .stop (missing name raw) (some ⟨cause, rest⟩)

theorem stepPair_alike (mark : String → String → Mark) (missing : String → String → List Mark)
    (cause : Cause) (p : Place) {read read' : Except Failure (String × String × List Char)}
    (h : AlikeRead g after read read') :
    AlikeStep g after (stepPair mark missing cause p read)
      (stepPair mark missing cause p read') := by
  cases h with
  | fails e => exact .fails _ _ _
  | reads name raw rest rest' hrest =>
    simp only [stepPair]
    split
    · obtain ⟨left, rfl, hleft⟩ := hrest.tail (by decide)
      exact .goes _ _ _ _ hleft
    · exact .fails _ _ _

theorem stepScope_alike (hg : Filler g) (c : Char) (r : List Char)
    (h : (scopeSpot (c :: r) after).admits g = true) :
    AlikeStep g after (stepScope (c :: (r ++ (blank ++ after))))
      (stepScope (c :: (r ++ (g ++ after)))) := by
  unfold scopeSpot at h
  simp only [List.head?_cons, Option.some.injEq] at h
  simp only [stepScope]
  split at h
  · rename_i hclose
    rw [if_pos hclose, if_pos hclose]
    exact .goes _ _ _ _ (.front r)
  · rename_i hclose
    rw [if_neg hclose, if_neg hclose]
    split at h
    · cases h
    · rename_i hopen
      have hvariable := startsVariable_alike hg (c :: r) after
        (Bool.eq_false_iff.mpr hopen)
      simp only [List.cons_append] at hvariable h
      rw [← hvariable]
      split
      · rename_i hstarts
        rw [if_pos hstarts] at h
        exact stepPair_alike .defined (fun _ _ => []) .unclosedVariable .scope
          (readPair_alike hg (c :: r) h)
      · rename_i hstarts
        rw [if_neg hstarts] at h
        exact stepHead_alike hg true (c :: r) after h

theorem stepRule_alike (hg : Filler g) (inScope : Bool) (c : Char) (r : List Char)
    (h : (ruleSpot (c :: r)).admits g = true) :
    AlikeStep g after (stepRule inScope (c :: (r ++ (blank ++ after))))
      (stepRule inScope (c :: (r ++ (g ++ after)))) := by
  unfold ruleSpot at h
  simp only [List.head?_cons, Option.some.injEq] at h
  simp only [stepRule]
  split at h
  · rename_i hclose
    rw [if_pos hclose, if_pos hclose]
    exact .goes _ _ _ _ (.front r)
  · rename_i hclose
    rw [if_neg hclose, if_neg hclose]
    exact stepPair_alike .declared (fun name raw => [.declared name raw]) .unclosedDeclaration
      (.rule inScope) (readPair_alike hg (c :: r) h)

theorem step_alike (hg : Filler g) (p : Place) (s : List Char)
    (h : (itemSpot p s after).admits g = true) :
    AlikeStep g after (step p (s ++ (blank ++ after))) (step p (s ++ (g ++ after))) := by
  unfold itemSpot at h
  split at h
  · cases h
  · rename_i hopen
    have hclosed := Bool.eq_false_iff.mpr hopen
    have hblank := filler_blank.afterTrivia_append s after hclosed
    have hfill := hg.afterTrivia_append s after hclosed
    cases hs : afterTrivia s with
    | nil =>
      -- The blank stands in front of the item, and is gone with its trivia.
      rw [hs, leftBefore, filler_blank.skipped] at hblank
      rw [hs, leftBefore, hg.skipped] at hfill
      have hsame : ∀ t, afterTrivia t = afterTrivia after → step p t = step p after := by
        intro t ht
        unfold step
        rw [ht]
      rw [hsame _ hblank, hsame _ hfill]
      exact .self _ fun ms p' rest hstep => Nat.le_of_lt (step_rest_lt p p' after rest ms hstep)
    | cons c r =>
      rw [hs, leftBefore] at hblank hfill
      rw [hs] at h
      cases p with
      | top =>
        rw [step, step, hblank, hfill]
        exact stepTop_alike hg c r h
      | scope =>
        rw [step, step, hblank, hfill]
        exact stepScope_alike hg c r h
      | rule inScope =>
        rw [step, step, hblank, hfill]
        exact stepRule_alike hg inScope c r h

end Steps

/-! ### Runs -/

/-- Whether a filler may stand for the blank between two texts, if the first is read from a place
on: the blank stands at a spot that admits it in every item that is read up to the blank. -/
def fits (f after : List Char) (p : Place) (s : List Char) : Bool :=
  (itemSpot p s after).admits f &&
    match _ : step p (s ++ (blank ++ after)) with
    | .stop _ _ => true
    | .go _ place rest =>
      if rest.length ≤ after.length then true
      else fits f after place (rest.take (rest.length - (blank ++ after).length))
termination_by s.length
decreasing_by
  have hlt := step_rest_lt p place _ rest _ (by assumption)
  have hblank : blank.length = 1 := rfl
  simp only [List.length_take, List.length_append] at hlt ⊢
  omega

-- A comment does not fit in the quoted value, nor directly behind the bare one.
example :
    let sheet := "@m\x7ba\x7d B .c\x7bw: 'x'; h: 1;\x7d".toList
    (List.range sheet.length).filter (fun n =>
      !fits (comment []) (sheet.drop n) .top (sheet.take n)) = [15, 16, 23] := by
  decide +kernel

section Runs

variable {g after : List Char}

theorem admits_of_fits (p : Place) (s : List Char) (h : fits g after p s = true) :
    (itemSpot p s after).admits g = true := by
  rw [fits, Bool.and_eq_true] at h
  exact h.1

theorem fits_rest (p p' : Place) (s rest : List Char) (ms : List Mark)
    (h : fits g after p s = true)
    (hstep : step p (s ++ (blank ++ after)) = .go ms p' (rest ++ (blank ++ after))) :
    fits g after p' rest = true := by
  have hlong : ¬ (rest ++ (blank ++ after)).length ≤ after.length := by
    simp [blank]
    omega
  rw [fits, Bool.and_eq_true] at h
  obtain ⟨_, hrest⟩ := h
  split at hrest
  · rename_i hstop
    rw [hstep] at hstop
    cases hstop
  · rename_i hgo
    rw [hstep] at hgo
    cases hgo
    rw [if_neg hlong, List.length_append, Nat.add_sub_cancel, List.take_left] at hrest
    exact hrest

/-- A text that is read to its end with a blank is read the same with a filler. -/
theorem readFrom_filled (hg : Filler g) (p : Place) (s : List Char)
    (hfits : fits g after p s = true)
    (hread : (readFrom p (s ++ (blank ++ after))).failure = none) :
    readFrom p (s ++ (g ++ after)) = readFrom p (s ++ (blank ++ after)) := by
  have halike := step_alike hg p s (admits_of_fits p s hfits)
  generalize hstep' : step p (s ++ (g ++ after)) = st' at halike
  cases hstep : step p (s ++ (blank ++ after)) with
  | stop ms failure =>
    rw [readFrom_of_stop _ _ _ _ hstep] at hread
    obtain rfl : failure = none := hread
    rw [hstep] at halike
    cases halike
    rw [readFrom_of_stop _ _ _ _ hstep, readFrom_of_stop _ _ _ _ hstep']
  | go ms p' rest =>
    have hlt := step_rest_lt p p' _ rest ms hstep
    rw [readFrom_of_go _ _ _ _ _ hstep] at hread
    rw [hstep] at halike
    cases halike with
    | goes _ _ _ rest' hrest =>
      rw [readFrom_of_go _ _ _ _ _ hstep, readFrom_of_go _ _ _ _ _ hstep']
      cases hrest with
      -- The blank was taken by this item.
      | behind _ _ => rfl
      | front front =>
        have hshorter : front.length < s.length := by
          simp only [List.length_append] at hlt
          omega
        have hfront := fits_rest p p' s front ms hfits hstep
        rw [readFrom_filled hg p' front hfront hread]
termination_by s.length

end Runs

/-! ### Sheets -/

/-- Two sheets with the same variables, and rule by rule the same selector, properties and
specificity, whatever the text of the selectors. -/
structure Sheet.Agrees (sheet other : Sheet) : Prop where
  definitions : other.definitions = sheet.definitions
  rules : List.Forall₂ (fun r r' : Rule => r'.selector = r.selector ∧
    r'.properties = r.properties ∧ r'.specificity = r.specificity) sheet.rules other.rules

theorem Sheet.Agrees.refl (sheet : Sheet) : sheet.Agrees sheet where
  definitions := rfl
  rules := List.forall₂_same.mpr fun _ _ => ⟨rfl, rfl, rfl⟩

/-- Whether a source is accepted as it is and with a part put into it, and stands for the same
either way. -/
def KeepsSheet (before part after : List Char) : Prop :=
  ∃ sheet other, (parse .lenient (String.ofList (before ++ after))).outcome = .ok sheet ∧
    (parse .lenient (String.ofList (before ++ (part ++ after)))).outcome = .ok other ∧
    sheet.Agrees other

/-- Where one more blank keeps the sheet, so does a comment that fits there. -/
theorem keepsSheet_comment (before body after : List Char) (h : KeepsSheet before blank after)
    (hbody : Text.occursIn commentEnd body = false)
    (hfits : fits (comment body) after .top before = true) :
    KeepsSheet before (comment body) after := by
  obtain ⟨sheet, other, hsheet, hother, hagrees⟩ := h
  refine ⟨sheet, other, hsheet, ?_, hagrees⟩
  obtain ⟨hread, _⟩ := parse_ok _ _ _ hother
  rw [String.toList_ofList] at hread
  have hfilled := readFrom_filled (filler_comment body hbody) .top before hfits hread
  have hsame : read (before ++ (comment body ++ after)) = read (before ++ (blank ++ after)) :=
    hfilled
  have hfailure : (read (before ++ (blank ++ after))).failure = none := hread
  rw [outcome_parse, String.toList_ofList, hfailure] at hother
  rw [outcome_parse, String.toList_ofList, hsame, hfailure]
  exact hother

/-- A comment that looks like the end of a declaration, in front of a selector's last word. -/
theorem keepsSheet_comment_in_head :
    KeepsSheet "A ".toList (comment ";\x7d".toList) "B\x7bw:1;\x7d".toList := by
  have hblank : KeepsSheet "A ".toList blank "B\x7bw:1;\x7d".toList := by
    refine ⟨⟨∅, [⟨"A B", ⟨[⟨[.tag "A"]⟩, ⟨[.tag "B"]⟩]⟩, .ofList [("w", "1")]⟩]⟩,
      ⟨∅, [⟨"A  B", ⟨[⟨[.tag "A"]⟩, ⟨[.tag "B"]⟩]⟩, .ofList [("w", "1")]⟩]⟩, ?_, ?_, ?_⟩
    · decide +kernel
    · decide +kernel
    · exact ⟨rfl, .cons ⟨rfl, rfl, rfl⟩ .nil⟩
  exact keepsSheet_comment _ _ _ hblank (by decide) (by decide +kernel)

/-- A blank in a quoted value that is overridden changes nothing, but a comment can end it. -/
theorem exists_not_keepsSheet_comment :
    ∃ before body after, '/' ∉ before ++ after ∧ KeepsSheet before blank after ∧
      Text.occursIn commentEnd body = false ∧ ¬ KeepsSheet before (comment body) after := by
  refine ⟨"B\x7bw:\"a".toList, ['\x22'], "\";w:1;\x7d".toList, by decide, ?_, by decide, ?_⟩
  · refine ⟨⟨∅, [⟨"B", ⟨[⟨[.tag "B"]⟩]⟩, .ofList [("w", "1")]⟩]⟩, _, ?_, ?_, .refl _⟩
    · decide +kernel
    · decide +kernel
  · rintro ⟨_, other, _, hother, _⟩
    have hrejected : (parse .lenient (String.ofList ("B\x7bw:\"a".toList ++
        (comment ['\x22'] ++ "\";w:1;\x7d".toList)))).outcome.isOk = false := by decide +kernel
    rw [hother] at hrejected
    cases hrejected

end FrameUI.Style
