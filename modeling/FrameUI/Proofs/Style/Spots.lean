import FrameUI.Proofs.Style.Fillers
import Mathlib.Data.List.TakeWhile

/-!
# Spots

Where in an item of a sheet a blank stands, as the reader meets it: between tokens, in the head
of a rule, in an at-rule, in a comment, or in a value. The spot decides which fillers may stand
for the blank. Main statements: every part of the reader makes the same of a text with a blank
and with a filler that its spot admits, and leaves texts that differ in no more than that.
-/

namespace FrameUI.Style

/-- Where a blank stands: between two tokens, in front of the brace that opens a rule, in an
at-rule, in a comment, in a quoted value, or in a bare value or directly behind it. -/
inductive Spot where
  | gap
  | head
  | atRule
  | comment
  | quoted
  | bare
deriving DecidableEq, Repr

/-- Whether a filler may stand for the blank at a spot. Heads are cut at their first brace, and
at-rules at their braces and semicolons, before their comments are looked at. -/
def Spot.admits (f : List Char) : Spot → Bool
  | .gap => true
  | .head => f.all (· != '{')
  | .atRule => f.all fun c => c != ';' && !isBrace c
  | .comment | .quoted | .bare => false

/-! ### The spot of a blank in one item

Each of these looks at a text that a blank ends. -/

def triviaSpot (s : List Char) : Spot := if endsInComment isSpace s then .comment else .gap

def valueSpot : List Char → Spot
  | [] => .gap
  | q :: r =>
    if q = '\x22' ∨ q = '\x27' then
      match r.dropWhile (· != q) with
      | [] => .quoted
      | _ :: rest => triviaSpot rest
    else
      match (q :: r).dropWhile isBare with
      | [] => .bare
      | c :: rest => triviaSpot (c :: rest)

def assignedSpot (s : List Char) : Spot :=
  if endsInComment isSpace s then .comment else valueSpot (afterTrivia s)

def pairSpot (s : List Char) : Spot :=
  if endsInComment isSpace (Text.afterName s) then .comment
  else match afterTrivia (Text.afterName s) with
    | ':' :: r => assignedSpot r
    | _ => .gap

def headSpot (s : List Char) : Spot :=
  if s.contains '{' then .gap else if endsInComment anyChar s then .comment else .head

def atRuleSpot (s after : List Char) : Spot :=
  if (afterAtRule (s ++ (blank ++ after))).length ≤ after.length then .atRule else .gap

def topSpot (s after : List Char) : Spot :=
  if (Text.dropLead? scopeWord s).any (endsInComment isSpace) then .comment
  else match openScope? (s ++ (blank ++ after)) with
    | some _ => .gap
    | none => if s.head? = some '@' then atRuleSpot s after else headSpot s

def scopeSpot (s after : List Char) : Spot :=
  if s.head? = some '}' then .gap
  else if endsInComment isSpace (Text.afterName s) then .comment
  else if startsVariable (s ++ (blank ++ after)) then pairSpot s
  else headSpot s

def ruleSpot (s : List Char) : Spot := if s.head? = some '}' then .gap else pairSpot s

def itemSpot (p : Place) (s after : List Char) : Spot :=
  if endsInComment isSpace s then .comment
  else match afterTrivia s with
    | [] => .gap
    | c :: r =>
      match p with
      | .top => topSpot (c :: r) after
      | .scope => scopeSpot (c :: r) after
      | .rule _ => ruleSpot (c :: r)

/-! ### Texts alike -/

section Alike

variable {g after : List Char}

/-- What is left of two texts that differ in a filler: both still have theirs, or neither. -/
inductive AlikeRest (g after : List Char) : List Char → List Char → Prop
  | front (s : List Char) : AlikeRest g after (s ++ (blank ++ after)) (s ++ (g ++ after))
  | behind (s : List Char) : s.length ≤ after.length → AlikeRest g after s s

theorem AlikeRest.tail {c : Char} {s s' : List Char} (h : AlikeRest g after (c :: s) s')
    (hc : c ≠ ' ') : ∃ t, s' = c :: t ∧ AlikeRest g after s t := by
  generalize hs : c :: s = whole at h
  cases h with
  | front front =>
    cases front with
    | nil => exact absurd (List.cons.inj hs).1 hc
    | cons d front =>
      obtain ⟨rfl, rfl⟩ := List.cons.inj hs
      exact ⟨_, rfl, .front front⟩
  | behind _ hle =>
    subst hs
    rw [List.length_cons] at hle
    exact ⟨s, rfl, .behind s (by omega)⟩

/-- Two readings of a part: the first fails, or both are the same but for what they leave. -/
inductive AlikeRead {α β : Type} (g after : List Char) :
    Except Failure (α × β × List Char) → Except Failure (α × β × List Char) → Prop
  | fails (e : Failure) (other : Except Failure (α × β × List Char)) :
      AlikeRead g after (.error e) other
  | reads (a : α) (b : β) (rest rest' : List Char) : AlikeRest g after rest rest' →
      AlikeRead g after (.ok (a, b, rest)) (.ok (a, b, rest'))

theorem AlikeRead.self {α β : Type} (r : Except Failure (α × β × List Char))
    (h : ∀ a b rest, r = .ok (a, b, rest) → rest.length ≤ after.length) :
    AlikeRead g after r r := by
  cases r with
  | error e => exact .fails e _
  | ok read =>
    obtain ⟨a, b, rest⟩ := read
    exact .reads a b rest rest (.behind rest (h a b rest rfl))

/-! ### Names and values -/

theorem readIdent?_append (s x : List Char) (hx : Text.StopsAt Text.isNameChar x) :
    readIdent? (s ++ x) = (readIdent? s).map fun read => (read.1, read.2 ++ x) := by
  have hrun : Text.nameRun (s ++ x) = Text.nameRun s := Text.takeWhile_append_of_stopsAt _ s x hx
  have hafter : Text.afterName (s ++ x) = Text.afterName s ++ x :=
    Text.dropWhile_append_of_stopsAt _ s x hx
  rw [readIdent?, readIdent?, hrun, hafter]
  cases (Text.nameRun s).isEmpty with
  | true => rfl
  | false => rfl

theorem afterTrivia_alike (hg : Filler g) (s : List Char)
    (h : (triviaSpot s).admits g = true) :
    AlikeRest g after (afterTrivia (s ++ (blank ++ after))) (afterTrivia (s ++ (g ++ after))) := by
  unfold triviaSpot at h
  split at h
  · cases h
  · rename_i hopen
    have hclosed := Bool.eq_false_iff.mpr hopen
    rw [filler_blank.afterTrivia_append s after hclosed, hg.afterTrivia_append s after hclosed]
    cases afterTrivia s with
    | nil =>
      rw [leftBefore, leftBefore, filler_blank.skipped, hg.skipped]
      exact .behind _ (afterTrivia_length_le after)
    | cons c r => exact .front (c :: r)

theorem readIdent?_cases (s : List Char) :
    readIdent? s = none ∨ readIdent? s = some (Text.nameRun s, Text.afterName s) := by
  rw [readIdent?]
  split
  · exact Or.inl rfl
  · exact Or.inr rfl

/-- A value that is over before a blank is read alike whatever follows it. -/
theorem readValue?_append (q : Char) (r : List Char)
    (h : (valueSpot (q :: r)).admits g = true) :
    ∃ value rest, (triviaSpot rest).admits g = true ∧
      ∀ x, readValue? (q :: (r ++ x)) = some (value, rest ++ x) := by
  simp only [valueSpot] at h
  split at h
  · rename_i hquote
    cases hr : r.dropWhile (· != q) with
    | nil =>
      rw [hr] at h
      cases h
    | cons d rest =>
      rw [hr] at h
      refine ⟨r.takeWhile (· != q), rest, h, fun x => ?_⟩
      obtain ⟨htake, hdrop⟩ := Text.span_append _ r x rest d hr
      simp only [readValue?, if_pos hquote, htake, hdrop]
  · rename_i hquote
    cases hr : (q :: r).dropWhile isBare with
    | nil =>
      rw [hr] at h
      cases h
    | cons d rest =>
      rw [hr] at h
      refine ⟨(q :: r).takeWhile isBare, d :: rest, h, fun x => ?_⟩
      obtain ⟨htake, hdrop⟩ := Text.span_append _ (q :: r) x rest d hr
      rw [List.cons_append] at htake hdrop
      simp only [readValue?, if_neg hquote, htake, hdrop]
      rfl

/-- What is read behind the colon of a property or variable. -/
def readAssigned (name s : List Char) : Except Failure (String × String × List Char) :=
  match readValue? (afterTrivia s) with
  | none => .error ⟨.unterminatedValue, afterTrivia s⟩
  | some (value, rest) => .ok (String.ofList name, String.ofList value, afterTrivia rest)

/-- What is read behind the name of a property or variable. -/
def readColon (name s : List Char) : Except Failure (String × String × List Char) :=
  match afterTrivia s with
  | ':' :: r => readAssigned name r
  | rest => .error ⟨.expectedColon, rest⟩

theorem readPair_eq (s : List Char) :
    readPair s =
      match readIdent? s with
      | none => .error ⟨.expectedProperty, s⟩
      | some (name, rest) => readColon name rest := rfl

theorem readAssigned_rest_le (name s : List Char) (a b : String) (rest : List Char)
    (h : readAssigned name s = .ok (a, b, rest)) : rest.length ≤ s.length := by
  unfold readAssigned at h
  split at h
  · cases h
  · rename_i value behind hvalue
    cases h
    have hle := readValue?_rest_le _ _ _ hvalue
    have hs := afterTrivia_length_le s
    have hbehind := afterTrivia_length_le behind
    omega

theorem readColon_rest_le (name s : List Char) (a b : String) (rest : List Char)
    (h : readColon name s = .ok (a, b, rest)) : rest.length ≤ s.length := by
  unfold readColon at h
  split at h
  · rename_i r hr
    have hle := readAssigned_rest_le _ _ _ _ _ h
    have hs := afterTrivia_length_le s
    rw [hr, List.length_cons] at hs
    omega
  · cases h

theorem readAssigned_alike (hg : Filler g) (name s : List Char)
    (h : (assignedSpot s).admits g = true) :
    AlikeRead g after (readAssigned name (s ++ (blank ++ after)))
      (readAssigned name (s ++ (g ++ after))) := by
  unfold assignedSpot at h
  split at h
  · cases h
  · rename_i hopen
    have hclosed := Bool.eq_false_iff.mpr hopen
    have hblank := filler_blank.afterTrivia_append s after hclosed
    have hfill := hg.afterTrivia_append s after hclosed
    unfold readAssigned
    rw [hblank, hfill]
    cases hs : afterTrivia s with
    | nil =>
      rw [leftBefore, leftBefore, filler_blank.skipped, hg.skipped]
      exact .self (readAssigned name after) (readAssigned_rest_le name after)
    | cons q r =>
      rw [hs] at h
      obtain ⟨value, rest, hrest, hvalue⟩ := readValue?_append q r h
      rw [leftBefore, leftBefore, hvalue, hvalue]
      exact .reads _ _ _ _ (afterTrivia_alike hg rest hrest)

theorem readColon_alike (hg : Filler g) (name s : List Char)
    (hclosed : endsInComment isSpace s = false)
    (h : ∀ r, afterTrivia s = ':' :: r → (assignedSpot r).admits g = true) :
    AlikeRead g after (readColon name (s ++ (blank ++ after)))
      (readColon name (s ++ (g ++ after))) := by
  have hblank := filler_blank.afterTrivia_append s after hclosed
  have hfill := hg.afterTrivia_append s after hclosed
  unfold readColon
  rw [hblank, hfill]
  cases hs : afterTrivia s with
  | nil =>
    rw [leftBefore, leftBefore, filler_blank.skipped, hg.skipped]
    exact .self (readColon name after) (readColon_rest_le name after)
  | cons c r =>
    rw [leftBefore, leftBefore]
    by_cases hc : c = ':'
    · subst hc
      exact readAssigned_alike hg name r (h r hs)
    · have hfails : ∀ x, (match c :: x with
          | ':' :: r => readAssigned name r
          | rest => .error ⟨.expectedColon, rest⟩) = .error ⟨.expectedColon, c :: x⟩ := by
        intro x
        split
        · rename_i heq
          exact absurd (List.cons.inj heq).1 hc
        · rfl
      rw [hfails]
      exact .fails _ _

theorem readPair_alike (hg : Filler g) (s : List Char) (h : (pairSpot s).admits g = true) :
    AlikeRead g after (readPair (s ++ (blank ++ after))) (readPair (s ++ (g ++ after))) := by
  rw [readPair_eq, readPair_eq,
    readIdent?_append s _ (filler_blank.stopsAt _ failsOnTrivia_nameChar after),
    readIdent?_append s _ (hg.stopsAt _ failsOnTrivia_nameChar after)]
  unfold pairSpot at h
  split at h
  · cases h
  · rename_i hopen
    rcases readIdent?_cases s with hnone | hsome
    · rw [hnone]
      exact .fails _ _
    · rw [hsome]
      refine readColon_alike hg _ _ (Bool.eq_false_iff.mpr hopen) ?_
      intro r hr
      rw [hr] at h
      exact h

/-- A variable is told from a rule alike if no comment is open behind its name. -/
theorem startsVariable_alike (hg : Filler g) (s after : List Char)
    (hclosed : endsInComment isSpace (Text.afterName s) = false) :
    startsVariable (s ++ (blank ++ after)) = startsVariable (s ++ (g ++ after)) := by
  rw [startsVariable, startsVariable,
    readIdent?_append s _ (filler_blank.stopsAt _ failsOnTrivia_nameChar after),
    readIdent?_append s _ (hg.stopsAt _ failsOnTrivia_nameChar after)]
  rcases readIdent?_cases s with hnone | hsome
  · rw [hnone]
    rfl
  · rw [hsome]
    have hblank := filler_blank.afterTrivia_append _ after hclosed
    have hfill := hg.afterTrivia_append _ after hclosed
    simp only [Option.map_some, hblank, hfill]
    cases afterTrivia (Text.afterName s) with
    | nil => rw [leftBefore, leftBefore, filler_blank.skipped, hg.skipped]
    | cons c r => rfl

/-! ### Scopes and heads -/

theorem Filler.stopsAt_scopeWord {f : List Char} (hf : Filler f) (s : List Char) :
    ∀ c ∈ scopeWord, Text.StopsAt (· == c) (f ++ s) := by
  have hletters : (scopeWord.all fun c => !isSpace c && c != '/') = true := rfl
  intro c hc
  have hc := List.all_eq_true.mp hletters c hc
  rw [Bool.and_eq_true, Bool.not_eq_true', bne_iff_ne] at hc
  exact hf.stopsAt _ (failsOnTrivia_eq c hc.1 hc.2) s

theorem openScope?_alike (hg : Filler g) (s after : List Char)
    (h : (Text.dropLead? scopeWord s).any (endsInComment isSpace) = false) :
    Option.Rel (AlikeRest g after) (openScope? (s ++ (blank ++ after)))
      (openScope? (s ++ (g ++ after))) := by
  have hblank := Text.dropLead?_append scopeWord s _ (filler_blank.stopsAt_scopeWord after)
  have hfill := Text.dropLead?_append scopeWord s _ (hg.stopsAt_scopeWord after)
  rw [scopeWord] at hblank hfill h
  rw [openScope?, openScope?, hblank, hfill]
  cases hr : Text.dropLead? ['s', 'c', 'o', 'p', 'e'] s with
  | none => exact .none
  | some r =>
    rw [hr] at h
    simp only [Option.map_some, filler_blank.afterTrivia_append r after h,
      hg.afterTrivia_append r after h]
    cases afterTrivia r with
    | nil =>
      rw [leftBefore, leftBefore, filler_blank.skipped, hg.skipped]
      cases hbrace : Text.dropLead? ['{'] (afterTrivia after) with
      | none => exact .none
      | some rest =>
        have hle := Text.dropLead?_rest_le _ _ _ hbrace
        exact .some (.behind rest (Nat.le_trans hle (afterTrivia_length_le after)))
    | cons c t =>
      simp only [leftBefore, Text.dropLead?]
      split
      · exact .some (AlikeRest.front t)
      · exact .none

/-- What is read as a head when its text, comments blanked, and the text from its brace on are
known. -/
def headOf (text rest whole : List Char) : Except Failure (String × Selector × List Char) :=
  match rest with
  | [] => .error ⟨.missingBody, []⟩
  | _ :: body =>
    match Selector.parse? text with
    | some selector => .ok (String.ofList text, selector, body)
    | none => .error ⟨.invalidSelector (String.ofList text), whole⟩

theorem readHead_eq (s : List Char) :
    readHead s =
      headOf (Text.trim (blankComments (s.takeWhile (· != '{')))) (s.dropWhile (· != '{')) s := by
  rw [← trim_blankComments_trim]
  rfl

theorem headOf_alike (text : List Char) {rest rest' : List Char} (whole whole' : List Char)
    (h : ∀ c body, rest = c :: body → ∃ body', rest' = c :: body' ∧ AlikeRest g after body body') :
    AlikeRead g after (headOf text rest whole) (headOf text rest' whole') := by
  cases rest with
  | nil => exact .fails _ _
  | cons c body =>
    obtain ⟨body', rfl, hbody⟩ := h c body rfl
    unfold headOf
    cases Selector.parse? text with
    | none => exact .fails _ _
    | some selector => exact .reads _ _ _ _ hbody

/-- The text of a head and what begins at its brace, if a filler without braces stands before
the brace. -/
theorem Filler.head_append {f : List Char} (hf : Filler f) (s after : List Char)
    (hs : ∀ c ∈ s, (c != '{') = true) (hfree : ∀ c ∈ f, (c != '{') = true)
    (hclosed : endsInComment anyChar s = false) :
    blankComments ((s ++ (f ++ after)).takeWhile (· != '{')) =
        blankComments s ++ ' ' :: blankComments (after.takeWhile (· != '{')) ∧
      (s ++ (f ++ after)).dropWhile (· != '{') = after.dropWhile (· != '{') := by
  have hstop := hf.stopsAt _ failsOnTrivia_star (after.takeWhile (· != '{'))
  constructor
  · rw [List.takeWhile_append_of_pos hs, List.takeWhile_append_of_pos hfree,
      blankComments_append_of_closed s _ hclosed hstop, hf.blanked]
  · rw [List.dropWhile_append_of_pos hs, List.dropWhile_append_of_pos hfree]

theorem readHead_alike (hg : Filler g) (s after : List Char)
    (h : (headSpot s).admits g = true) :
    AlikeRead g after (readHead (s ++ (blank ++ after))) (readHead (s ++ (g ++ after))) := by
  rw [readHead_eq, readHead_eq]
  cases hs : s.dropWhile (· != '{') with
  | cons c body =>
    -- The head is over before the blank.
    have hspan := fun x => Text.span_append _ s x body c hs
    rw [(hspan _).1, (hspan _).1, (hspan _).2, (hspan _).2]
    apply headOf_alike
    rintro d body' heq
    obtain ⟨rfl, rfl⟩ := List.cons.inj heq
    exact ⟨_, rfl, .front body⟩
  | nil =>
    have hnone : ∀ c ∈ s, (c != '{') = true := List.dropWhile_eq_nil_iff.mp hs
    unfold headSpot at h
    split at h
    · rename_i hbrace
      exact absurd (hnone '{' (List.contains_iff_mem.mp hbrace)) (by decide)
    · split at h
      · cases h
      · rename_i hopen
        have hclosed := Bool.eq_false_iff.mpr hopen
        have hblank := filler_blank.head_append s after hnone (List.all_eq_true.mp rfl) hclosed
        have hfill := hg.head_append s after hnone (List.all_eq_true.mp h) hclosed
        rw [hblank.1, hblank.2, hfill.1, hfill.2]
        apply headOf_alike
        intro c body hdrop
        have hle := Text.length_dropWhile_le (· != '{') after
        rw [hdrop, List.length_cons] at hle
        exact ⟨body, hdrop, .behind body (by omega)⟩

/-! ### At-rules -/

theorem afterBlock_append_cases (depth : Nat) (s : List Char) :
    (∃ rest, ∀ x, afterBlock depth (s ++ x) = rest ++ x) ∨
      ∃ d, ∀ x, afterBlock depth (s ++ x) = afterBlock d x := by
  induction s generalizing depth with
  | nil => exact Or.inr ⟨depth, fun x => rfl⟩
  | cons c s ih =>
    simp only [List.cons_append, afterBlock]
    split
    · exact ih (depth + 1)
    · split
      · split
        · exact Or.inl ⟨s, fun x => rfl⟩
        · exact ih (depth - 1)
      · exact ih depth

theorem afterBlock_append_plain (depth : Nat) (f x : List Char)
    (h : ∀ c ∈ f, isBrace c = false) : afterBlock depth (f ++ x) = afterBlock depth x := by
  induction f with
  | nil => rfl
  | cons c f ih =>
    have hc := h c List.mem_cons_self
    simp only [isBrace, Bool.or_eq_false_iff, beq_eq_false_iff_ne] at hc
    rw [List.cons_append, afterBlock, if_neg hc.1, if_neg hc.2]
    exact ih fun d hd => h d (List.mem_cons_of_mem c hd)

/-- An at-rule ends inside a text, or goes on behind it. -/
theorem afterAtRule_append_cases (s : List Char) :
    (∃ rest, ∀ x, afterAtRule ('@' :: (s ++ x)) = rest ++ x) ∨
      (∃ d, ∀ x, afterAtRule ('@' :: (s ++ x)) = afterBlock d x) ∨
      ∀ x, afterAtRule ('@' :: (s ++ x)) = afterAtRule ('@' :: x) := by
  cases hs : s.dropWhile (fun c => c != ';' && c != '{') with
  | nil =>
    refine Or.inr (Or.inr fun x => ?_)
    have hnone := List.dropWhile_eq_nil_iff.mp hs
    simp only [afterAtRule, List.dropWhile_append_of_pos hnone]
  | cons c rest =>
    have hspan := fun x => (Text.span_append _ s x rest c hs).2
    by_cases hc : c = ';'
    · subst hc
      refine Or.inl ⟨rest, fun x => ?_⟩
      simp only [afterAtRule, hspan]
    · have hblock : ∀ x, afterAtRule ('@' :: (s ++ x)) = afterBlock 0 (c :: rest ++ x) := by
        intro x
        simp only [afterAtRule, hspan]
        split
        · rename_i heq
          exact absurd (List.cons.inj heq).1 hc
        · rfl
      rcases afterBlock_append_cases 0 (c :: rest) with ⟨left, hleft⟩ | ⟨d, hd⟩
      · exact Or.inl ⟨left, fun x => (hblock x).trans (hleft x)⟩
      · exact Or.inr (Or.inl ⟨d, fun x => (hblock x).trans (hd x)⟩)

/-- An at-rule that goes on behind a text does so whatever plain text stands there. -/
theorem afterAtRule_append_plain (s : List Char)
    (h : ¬ ∃ rest, ∀ x, afterAtRule ('@' :: (s ++ x)) = rest ++ x) (f x : List Char)
    (hplain : ∀ c ∈ f, (c != ';' && !isBrace c) = true) :
    afterAtRule ('@' :: (s ++ (f ++ x))) = afterAtRule ('@' :: (s ++ x)) ∧
      (afterAtRule ('@' :: (s ++ x))).length ≤ x.length := by
  rcases afterAtRule_append_cases s with hends | ⟨d, hd⟩ | hgoes
  · exact absurd hends h
  · have hbraces : ∀ c ∈ f, isBrace c = false := by
      intro c hc
      have hboth := hplain c hc
      rw [Bool.and_eq_true, Bool.not_eq_true'] at hboth
      exact hboth.2
    rw [hd, hd, afterBlock_append_plain d f x hbraces]
    exact ⟨rfl, afterBlock_length_le d x⟩
  · have hscan : ∀ c ∈ f, (c != ';' && c != '{') = true := by
      intro c hc
      have hboth := hplain c hc
      simp only [isBrace, Bool.and_eq_true, Bool.not_eq_true', Bool.or_eq_false_iff,
        beq_eq_false_iff_ne] at hboth
      rw [Bool.and_eq_true, bne_iff_ne (b := '{')]
      exact ⟨hboth.1, hboth.2.1⟩
    have hlt := afterAtRule_length_lt x
    rw [List.length_cons] at hlt
    rw [hgoes, hgoes]
    refine ⟨?_, by omega⟩
    simp only [afterAtRule, List.dropWhile_append_of_pos hscan]

theorem afterAtRule_alike (s : List Char)
    (h : (atRuleSpot ('@' :: s) after).admits g = true) :
    AlikeRest g after (afterAtRule ('@' :: (s ++ (blank ++ after))))
      (afterAtRule ('@' :: (s ++ (g ++ after)))) := by
  -- Either the at-rule is over before the blank, or it takes the blank and the filler with it.
  by_cases hends : ∃ rest, ∀ x, afterAtRule ('@' :: (s ++ x)) = rest ++ x
  · obtain ⟨rest, hrest⟩ := hends
    rw [hrest, hrest]
    exact .front rest
  · obtain ⟨hblank, hle⟩ := afterAtRule_append_plain s hends blank after
      (List.all_eq_true.mp rfl)
    rw [atRuleSpot, List.cons_append, if_pos (by rw [hblank]; exact hle)] at h
    have hplain := List.all_eq_true.mp h
    rw [hblank, (afterAtRule_append_plain s hends g after hplain).1]
    exact .behind _ hle

end Alike

end FrameUI.Style
