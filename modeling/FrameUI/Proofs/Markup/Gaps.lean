import FrameUI.Proofs.Markup.Documents
import FrameUI.Proofs.Markup.Warnings
import FrameUI.Proofs.Text.Words

/-!
# Comments and blanks between children

What has been read before a position among children is a list of events and a place, so a text
put in at that position matters only by where it leads from there. A comment leads back to the
same place without an event, and so does a blank where no run ends. Main statement:
`parse_insert`, that neither changes how a document is parsed.
-/

namespace FrameUI.Markup

open Assembly

/-! ### Positions among children -/

/-- A complete comment. -/
def comment (body : List Char) : List Char := '<' :: '!' :: '-' :: '-' :: (body ++ commentEnd)

/-- An opening tag that does not close itself. -/
inductive OpeningText (tag : String) : List Char → Prop
  | mk (name blanks attributes : List Char) (pairs : List (String × String)) :
      tag = String.ofList name → Text.LongestName name (blanks ++ (attributes ++ ['>'])) →
      Text.AllBlank blanks → AttributesText attributes pairs →
      OpeningText tag ('<' :: (name ++ (blanks ++ (attributes ++ ['>']))))

/-- What a document holds before a position among the children of the element `tag`: the opening
tags of that element and of those around it, whole siblings, comments, blanks and runs. The flag
says whether a run ends at the position. -/
inductive BeforeChild : String → List String → Bool → List Char → Prop
  | root (tag : String) (opening : List Char) :
      OpeningText tag opening → BeforeChild tag [] false opening
  | opening (tag parent : String) (outer : List String) (ran : Bool)
      (before opening : List Char) : BeforeChild parent outer ran before →
      OpeningText tag opening → BeforeChild tag (parent :: outer) false (before ++ opening)
  | element (tag : String) (outer : List String) (ran : Bool) (before text : List Char)
      (e : Element) : BeforeChild tag outer ran before → ElementText text e →
      BeforeChild tag outer false (before ++ text)
  | comment (tag : String) (outer : List String) (ran : Bool) (before body : List Char) :
      BeforeChild tag outer ran before → Text.occursIn commentEnd body = false →
      BeforeChild tag outer false (before ++ comment body)
  | blank (tag : String) (outer : List String) (before : List Char) (c : Char) :
      BeforeChild tag outer false before → Text.isBlank c = true →
      BeforeChild tag outer false (before ++ [c])
  | run (tag : String) (outer : List String) (before run : List Char) :
      BeforeChild tag outer false before → run ≠ [] → Text.StopsAt Text.isBlank run →
      '<' ∉ run → BeforeChild tag outer true (before ++ run)

/-! ### Where a text leads -/

/-- Behind a run only a tag or a comment can follow. -/
def Follows (ran : Bool) (s : List Char) : Prop := ran = true → Text.StopsAt (· != '<') s

/-- A text leads from one place to another: if it can be read at all, then with the same events
whatever follows it. -/
def LeadsTo (ran : Bool) (p : Place) (s : List Char) (p' : Place) : Prop :=
  (∃ x, Follows ran x ∧ (readFrom p (s ++ x)).failure = none) →
    ∃ events, ∀ y, Follows ran y → readFrom p (s ++ y) = (readFrom p' y).after events

theorem follows_false (s : List Char) : Follows false s := by
  intro h
  cases h

theorem follows_angle (ran : Bool) (s : List Char) : Follows ran ('<' :: s) :=
  fun _ => Text.stopsAt_cons _ _ _ (by decide)

theorem leadsTo_nil (ran : Bool) (p : Place) : LeadsTo ran p [] p :=
  fun _ => ⟨[], fun _ _ => rfl⟩

/-- A text that is read without a condition. -/
theorem LeadsTo.of_forall {ran : Bool} {p p' : Place} {s : List Char} (events : List Event)
    (h : ∀ y, Follows ran y → readFrom p (s ++ y) = (readFrom p' y).after events) :
    LeadsTo ran p s p' :=
  fun _ => ⟨events, h⟩

theorem LeadsTo.append {ran ran' : Bool} {p p' p'' : Place} {s t : List Char}
    (hs : LeadsTo ran p s p') (ht : LeadsTo ran' p' t p'')
    (hfollows : ∀ y, Follows ran' y → Follows ran (t ++ y)) : LeadsTo ran' p (s ++ t) p'' := by
  rintro ⟨x, hx, hread⟩
  rw [List.append_assoc] at hread
  obtain ⟨first, hfirst⟩ := hs ⟨t ++ x, hfollows x hx, hread⟩
  rw [hfirst _ (hfollows x hx), Reading.failure_after] at hread
  obtain ⟨more, hmore⟩ := ht ⟨x, hx, hread⟩
  refine ⟨first ++ more, fun y hy => ?_⟩
  rw [List.append_assoc, hfirst _ (hfollows y hy), hmore y hy, Reading.after_after]

section Steps

variable (tag : String) (outer : List String)

theorem leadsTo_blank (c : Char) (h : Text.isBlank c = true) :
    LeadsTo false (.inside tag outer) [c] (.inside tag outer) :=
  .of_forall [] fun y _ => readFrom_inside_blank tag outer c y h

theorem leadsTo_comment (body : List Char) (h : Text.occursIn commentEnd body = false) :
    LeadsTo false (.inside tag outer) (comment body) (.inside tag outer) :=
  .of_forall [] fun y _ => readFrom_inside_comment tag outer body y h

theorem leadsTo_run (run : List Char) (hne : run ≠ []) (hfront : Text.StopsAt Text.isBlank run)
    (hplain : '<' ∉ run) : LeadsTo true (.inside tag outer) run (.inside tag outer) :=
  .of_forall _ fun y hy => readFrom_inside_run tag outer run y ⟨hne, hfront, hplain, hy rfl⟩

theorem enter_of_openingText (around : List String) (s : List Char) (h : OpeningText tag s) :
    ∃ events, ∀ y, enter around (s.tail ++ y) = .go events (.inside tag around) y := by
  obtain ⟨name, blanks, attributes, pairs, rfl, hname, hblanks, hattributes⟩ := h
  refine ⟨.opened (String.ofList name) :: givenEvents pairs, fun y => ?_⟩
  have hname' : Text.LongestName name (blanks ++ (attributes ++ '>' :: y)) := by
    have := hname.before _ (hname.longest.append y (by simp))
    simpa using this
  have hopening := readOpening_of_text name blanks attributes ('>' :: y) pairs hname' hblanks
    hattributes ⟨y, Or.inr rfl⟩
  have htext : ('<' :: (name ++ (blanks ++ (attributes ++ ['>'])))).tail ++ y =
      name ++ (blanks ++ (attributes ++ '>' :: y)) := by simp
  rw [htext]
  simp only [enter, hopening, hname'.nameRun_eq, tagEnd]

theorem exists_nameChar_of_openingText (s : List Char) (h : OpeningText tag s) :
    ∃ c r, s = '<' :: c :: r ∧ Text.isNameChar c = true := by
  obtain ⟨name, blanks, attributes, pairs, _, hname, _, _⟩ := h
  cases name with
  | nil => exact absurd rfl hname.nonempty
  | cons c r => exact ⟨c, _, rfl, hname.letters c List.mem_cons_self⟩

/-- What stands behind a `<` and a letter is read as an element, or it is too deep. -/
theorem readFrom_inside_angle (c : Char) (r : List Char) (hc : Text.isNameChar c = true)
    (h : (readFrom (.inside tag outer) ('<' :: c :: r)).failure = none) (y : List Char) :
    readFrom (.inside tag outer) ('<' :: c :: y) = (enter (tag :: outer) (c :: y)).reading := by
  refine readFrom_inside_opening tag outer c y hc (Nat.not_le.mp fun hdeep => ?_)
  rw [readFrom_eq_reading, step_inside, trimStart_angle] at h
  simp only [stepInside, piece_of_nameChar c r hc, hdeep, if_true, Step.reading] at h
  cases h

theorem leadsTo_opening (parent : String) (s : List Char) (h : OpeningText tag s) :
    LeadsTo false (.inside parent outer) s (.inside tag (parent :: outer)) := by
  rintro ⟨x, _, hread⟩
  obtain ⟨events, henter⟩ := enter_of_openingText tag (parent :: outer) s h
  obtain ⟨c, r, rfl, hc⟩ := exists_nameChar_of_openingText tag s h
  refine ⟨events, fun y _ => ?_⟩
  have hangle := readFrom_inside_angle parent outer c _ hc hread (r ++ y)
  exact hangle.trans (congrArg Step.reading (henter y))

theorem leadsTo_closing (name : List Char) (parent : String)
    (h : Text.LongestName name ['>']) :
    LeadsTo false (.inside (String.ofList name) (parent :: outer)) ('<' :: '/' :: (name ++ ['>']))
      (.inside parent outer) := by
  refine .of_forall [.closed] fun y _ => ?_
  have hclosing := readFrom_inside_closing name (parent :: outer) y
    (h.before _ (Text.stopsAt_cons _ _ _ (by decide)))
  simpa [leave, Step.reading] using hclosing

theorem leadsTo_empty (name blanks attributes : List Char) (pairs : List (String × String))
    (hname : Text.LongestName name (blanks ++ attributes ++ ['/', '>']))
    (hblanks : Text.AllBlank blanks) (hattributes : AttributesText attributes pairs) :
    LeadsTo false (.inside tag outer) ('<' :: (name ++ (blanks ++ attributes ++ ['/', '>'])))
      (.inside tag outer) := by
  rintro ⟨x, _, hread⟩
  refine ⟨.opened (String.ofList name) :: givenEvents pairs ++ [.closed], fun y _ => ?_⟩
  cases hcons : name with
  | nil => exact absurd hcons hname.nonempty
  | cons c r =>
    have henter := reading_enter_empty name blanks attributes y pairs (tag :: outer) hname hblanks
      hattributes
    rw [hcons] at hread henter
    have hangle := readFrom_inside_angle tag outer c _ (hname.letters c (by simp [hcons])) hread
      (r ++ (blanks ++ attributes ++ ['/', '>']) ++ y)
    exact hangle.trans henter

end Steps

/-! ### Whole elements -/

mutual

theorem leadsTo_of_elementText (s : List Char) (e : Element) :
    ElementText s e → ∀ (tag : String) (outer : List String),
      LeadsTo false (.inside tag outer) s (.inside tag outer)
  | .empty name blanks attributes pairs hname hblanks hattributes, tag, outer =>
    leadsTo_empty tag outer name blanks attributes pairs hname hblanks hattributes
  | .full name blanks attributes inner pairs children hname hblanks hattributes hinner, tag,
      outer => by
    have hsplit : blanks ++ attributes ++ '>' :: (inner ++ '<' :: '/' :: (name ++ ['>'])) =
        blanks ++ (attributes ++ ['>']) ++ (inner ++ '<' :: '/' :: (name ++ ['>'])) := by simp
    have hmark : Text.StopsAt Text.isNameChar (blanks ++ (attributes ++ ['>'])) :=
      (hsplit ▸ hname.longest).of_append
    have hopening := leadsTo_opening (String.ofList name) outer tag _
      (.mk name blanks attributes pairs rfl (hname.before _ hmark) hblanks hattributes)
    have hchildren := leadsTo_of_childrenText inner children hinner (String.ofList name)
      (tag :: outer)
    have hclosing := leadsTo_closing outer name tag
      (hname.before _ (Text.stopsAt_cons _ _ _ (by decide)))
    have hall := (hopening.append hchildren fun _ _ => follows_false _).append hclosing
      fun _ _ => follows_angle _ _
    simpa using hall

theorem leadsTo_of_childrenText (s : List Char) (nodes : List Node) :
    ChildrenText s nodes → ∀ (tag : String) (outer : List String),
      LeadsTo true (.inside tag outer) s (.inside tag outer)
  | .nil, tag, outer => leadsTo_nil true _
  | .blank c s nodes hc hs, tag, outer =>
    (leadsTo_blank tag outer c hc).append (leadsTo_of_childrenText s nodes hs tag outer)
      fun _ _ => follows_false _
  | .comment body s nodes hbody hs, tag, outer =>
    (leadsTo_comment tag outer body hbody).append (leadsTo_of_childrenText s nodes hs tag outer)
      fun _ _ => follows_false _
  | .element text s e nodes he hs, tag, outer =>
    (leadsTo_of_elementText text e he tag outer).append
      (leadsTo_of_childrenText s nodes hs tag outer) fun _ _ => follows_false _
  | .run run s nodes hrun hs, tag, outer => by
    refine (leadsTo_run tag outer run hrun.nonempty hrun.front hrun.plain).append
      (leadsTo_of_childrenText s nodes hs tag outer) fun y hy _ => ?_
    cases s with
    | nil => exact hy rfl
    | cons c s => exact hrun.longest.append y (by simp)

end

/-! ### What stands before a position -/

theorem BeforeChild.leadsTo {tag : String} {outer : List String} {ran : Bool}
    {before : List Char} (h : BeforeChild tag outer ran before) :
    LeadsTo ran .start before (.inside tag outer) := by
  induction h with
  | root tag opening h =>
    obtain ⟨events, henter⟩ := enter_of_openingText tag [] opening h
    obtain ⟨c, r, rfl, _⟩ := exists_nameChar_of_openingText tag opening h
    exact .of_forall events fun y _ =>
      (readFrom_start_angle _).trans (congrArg Step.reading (henter y))
  | opening tag parent outer ran before opening _ h ih =>
    obtain ⟨c, r, rfl, _⟩ := exists_nameChar_of_openingText tag opening h
    exact ih.append (leadsTo_opening tag outer parent _ h) fun y _ => follows_angle ran _
  | element tag outer ran before text e _ h ih =>
    obtain ⟨c, r, rfl, _⟩ := exists_nameChar_of_elementText text e h
    exact ih.append (leadsTo_of_elementText _ e h tag outer) fun y _ => follows_angle ran _
  | comment tag outer ran before body _ h ih =>
    exact ih.append (leadsTo_comment tag outer body h) fun y _ => follows_angle ran _
  | blank tag outer before c _ h ih =>
    exact ih.append (leadsTo_blank tag outer c h) fun _ _ => follows_false _
  | run tag outer before run _ hne hfront hplain ih =>
    exact ih.append (leadsTo_run tag outer run hne hfront hplain) fun _ _ => follows_false _

theorem BeforeChild.head? {tag : String} {outer : List String} {ran : Bool}
    {before : List Char} (h : BeforeChild tag outer ran before) : before.head? = some '<' := by
  induction h with
  | root tag opening h =>
    obtain ⟨c, r, rfl, _⟩ := exists_nameChar_of_openingText tag opening h
    rfl
  | opening _ _ _ _ _ _ _ _ ih => simp [ih]
  | element _ _ _ _ _ _ _ _ ih => simp [ih]
  | comment _ _ _ _ _ _ _ ih => simp [ih]
  | blank _ _ _ _ _ _ ih => simp [ih]
  | run _ _ _ _ _ _ _ _ ih => simp [ih]

/-! ### Parsing -/

theorem trimEnd_angle (a b : List Char) :
    Text.trimEnd (a ++ '<' :: b) = a ++ '<' :: Text.trimEnd b := by
  have hstop : Text.StopsAt Text.isBlank ('<' :: a.reverse) :=
    Text.stopsAt_cons _ _ _ (by decide)
  have hreverse : (a ++ '<' :: b).reverse = b.reverse ++ '<' :: a.reverse := by simp
  rw [Text.trimEnd, hreverse, Text.dropWhile_append_of_stopsAt _ _ _ hstop, List.reverse_append]
  simp [Text.trimEnd]

theorem BeforeChild.trim {tag : String} {outer : List String} {ran : Bool}
    {before : List Char} (h : BeforeChild tag outer ran before) (lead more rest : List Char)
    (hlead : Text.AllBlank lead) :
    Text.trim (lead ++ (before ++ (more ++ '<' :: rest))) =
      before ++ (more ++ '<' :: Text.trimEnd rest) := by
  obtain ⟨r, rfl⟩ := List.head?_eq_some_iff.mp h.head?
  rw [Text.trim_blanks_append lead _ hlead, Text.trim, List.cons_append, trimStart_angle,
    ← List.cons_append, ← List.append_assoc, trimEnd_angle, List.append_assoc]

theorem failure_of_outcome_parse (v : Validator) (source : String) (root : Element)
    (h : (parse v source).outcome = .ok root) :
    (readFrom .start (Text.trim source.toList)).failure = none := by
  rw [outcome_parse] at h
  cases hfailure : (readFrom .start (Text.trim source.toList)).failure with
  | none => rfl
  | some f =>
    rw [hfailure] at h
    cases htake : (Assembly.empty.takeAll v
        (readFrom .start (Text.trim source.toList)).events).outcome with
    | ok assembly =>
      rw [htake] at h
      cases h
    | error e =>
      rw [htake] at h
      cases h

theorem parse_eq_of_readFrom_eq (v : Validator) (source source' : String)
    (hok : (readFrom .start (Text.trim source.toList)).failure = none)
    (h : readFrom .start (Text.trim source'.toList) =
      readFrom .start (Text.trim source.toList)) : parse v source' = parse v source := by
  simp only [parse, h, hok]

/-- A comment put in before a tag or a comment among the children of an element changes nothing
about the parse of an accepted source, and neither do blanks if no run ends there. -/
theorem parse_insert (v : Validator) (lead before rest : List Char) (tag : String)
    (outer : List String) (ran : Bool) (root : Element) (hlead : Text.AllBlank lead)
    (hbefore : BeforeChild tag outer ran before)
    (hparse : (parse v (String.ofList (lead ++ (before ++ '<' :: rest)))).outcome = .ok root) :
    (∀ body, Text.occursIn commentEnd body = false →
      parse v (String.ofList (lead ++ (before ++ (comment body ++ '<' :: rest)))) =
        parse v (String.ofList (lead ++ (before ++ '<' :: rest)))) ∧
    (ran = false → ∀ blanks, Text.AllBlank blanks →
      parse v (String.ofList (lead ++ (before ++ (blanks ++ '<' :: rest)))) =
        parse v (String.ofList (lead ++ (before ++ '<' :: rest)))) := by
  have hok := failure_of_outcome_parse v _ root hparse
  have htrim := hbefore.trim lead [] rest hlead
  rw [List.nil_append, List.nil_append] at htrim
  have hread := hok
  rw [String.toList_ofList, htrim] at hread
  obtain ⟨events, hevents⟩ := hbefore.leadsTo ⟨_, follows_angle ran _, hread⟩
  -- what is put in has only to lead back to where it stands
  have hinsert : ∀ more, Follows ran (more ++ '<' :: Text.trimEnd rest) →
      (∀ y, readFrom (.inside tag outer) (more ++ y) = readFrom (.inside tag outer) y) →
      parse v (String.ofList (lead ++ (before ++ (more ++ '<' :: rest)))) =
        parse v (String.ofList (lead ++ (before ++ '<' :: rest))) := by
    intro more hmore hback
    refine parse_eq_of_readFrom_eq v _ _ hok ?_
    rw [String.toList_ofList, String.toList_ofList, hbefore.trim lead more rest hlead, htrim,
      hevents _ hmore, hevents _ (follows_angle ran _), hback]
  constructor
  · intro body hbody
    exact hinsert (comment body) (follows_angle ran _) fun y =>
      readFrom_inside_comment tag outer body y hbody
  · rintro rfl blanks hblanks
    exact hinsert blanks (follows_false _) fun y =>
      readFrom_inside_blanks tag outer blanks y hblanks

/-- The beginning of a document up to a position behind an inner element. -/
def innerFront : List Char := "<App> <Body><Text/>".toList

theorem beforeChild_innerFront : BeforeChild "Body" ["App"] false innerFront := by
  have hplain : ∀ name : List Char, name ≠ [] → (∀ c ∈ name, Text.isNameChar c = true) →
      OpeningText (String.ofList name) ('<' :: (name ++ ['>'])) := fun name hne hletters =>
    .mk name [] [] [] rfl ⟨hne, hletters, Text.stopsAt_cons _ _ _ (by decide)⟩ Text.allBlank_nil .nil
  have happ : BeforeChild "App" [] false "<App>".toList :=
    .root _ _ (hplain "App".toList (by decide) (List.all_eq_true.mp rfl))
  have hbody := BeforeChild.opening "Body" _ _ _ _ _ (.blank _ _ _ ' ' happ (by decide))
    (hplain "Body".toList (by decide) (List.all_eq_true.mp rfl))
  exact .element _ _ _ _ _ _ hbody (.empty "Text".toList [] [] []
    ⟨by decide, List.all_eq_true.mp rfl, Text.stopsAt_cons _ _ _ (by decide)⟩
    Text.allBlank_nil .nil)

theorem parse_insert_innerFront :
    (parse .strict (String.ofList (innerFront ++
        (comment "<b>".toList ++ "</Body></App>".toList)))).outcome =
      .ok ⟨"App", ∅, [.element ⟨"Body", ∅, [.element ⟨"Text", ∅, []⟩]⟩]⟩ ∧
    (parse .strict (String.ofList (innerFront ++
        ("\n".toList ++ "</Body></App>".toList)))).outcome =
      .ok ⟨"App", ∅, [.element ⟨"Body", ∅, [.element ⟨"Text", ∅, []⟩]⟩]⟩ := by
  have hparse : (parse .strict (String.ofList ([] ++ (innerFront ++
      '<' :: "/Body></App>".toList)))).outcome =
        .ok ⟨"App", ∅, [.element ⟨"Body", ∅, [.element ⟨"Text", ∅, []⟩]⟩]⟩ :=
    Checked.eq_ok_of_toOption _ _ (by decide +kernel)
  obtain ⟨hcomment, hblanks⟩ := parse_insert .strict [] innerFront "/Body></App>".toList "Body"
    ["App"] false _ Text.allBlank_nil beforeChild_innerFront hparse
  have hnewline : Text.AllBlank ['\n'] := Text.allBlank_nil.cons (by decide)
  exact ⟨(congrArg (fun answer => answer.outcome) (hcomment _ (by decide))).trans hparse,
    (congrArg (fun answer => answer.outcome) (hblanks rfl _ hnewline)).trans hparse⟩

end FrameUI.Markup
