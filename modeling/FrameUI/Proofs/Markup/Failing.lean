import FrameUI.Proofs.Markup.Gaps
import Mathlib.Data.List.TakeWhile

/-!
# How reading fails

Where reading stops with a failure, the text falls into what was read and what stands there, and
the cause of the failure is true of the two: the tags that are open, the token or name that is
missing, or the end of the text. Tags are looked at first, then one step from any place, and a
whole reading by induction. Main statement: `fails_of_readFrom`.
-/

namespace FrameUI.Markup

/-! ### Attributes and opening tags -/

/-- How an attribute fails: the cause, the part of it that was read, and the rest of the text. -/
inductive AttributeFails : Cause → List Char → List Char → Prop
  | name (rest : List Char) :
      Text.StopsAt Text.isNameChar rest → AttributeFails (.emptyName "attribute") [] rest
  | equals (name rest : List Char) :
      Text.LongestName name rest → Text.StopsAt (· == '=') rest →
      AttributeFails (.expectedToken "=") name rest
  | quote (name rest : List Char) :
      Text.LongestName name ('=' :: rest) → (∀ q ∈ rest.head?, ¬ IsQuote q) →
      AttributeFails .unquotedValue (name ++ ['=']) rest
  | value (name value : List Char) (q : Char) :
      Text.LongestName name ('=' :: q :: value) → IsQuote q → q ∉ value →
      AttributeFails .unclosedValue (name ++ '=' :: q :: value) []

/-- What stands in an opening tag behind its `<` and before an attribute or the end of the tag:
its name and whole attributes. -/
inductive TagFront : List Char → List Char → Prop
  | mk (name blanks attributes rest : List Char) (pairs : List (String × String)) :
      Text.LongestName name (blanks ++ (attributes ++ rest)) → Text.AllBlank blanks →
      AttributesText attributes pairs → TagFront (name ++ (blanks ++ attributes)) rest

/-- How an opening tag fails behind its `<`. -/
inductive OpeningFails : Cause → List Char → List Char → Prop
  | name (rest : List Char) :
      Text.StopsAt Text.isNameChar rest → OpeningFails (.emptyName "tag") [] rest
  | inside (cause : Cause) (front part rest : List Char) :
      TagFront front (part ++ rest) → atTagEnd (part ++ rest) = false →
      AttributeFails cause part rest → OpeningFails cause (front ++ part) rest
  | ending (front rest : List Char) :
      TagFront front rest → ¬ ['>'] <+: rest → ¬ ['/', '>'] <+: rest →
      OpeningFails (.expectedToken ">") front rest

theorem fails_of_readAttribute (s : List Char) (f : Failure)
    (h : readAttribute s = .error f) :
    ∃ part, s = part ++ f.rest ∧ AttributeFails f.cause part f.rest := by
  unfold readAttribute at h
  split at h
  · rename_i hempty
    cases h
    exact ⟨[], rfl, .name s (Text.stopsAt_of_nameRun s hempty)⟩
  · rename_i hne
    have hname := Text.longestName_nameRun s (by simpa using hne)
    have hs := (Text.nameRun_append_afterName s).symm
    split at h
    · rename_i r hr
      rw [hr] at hname hs
      split at h
      · rename_i q v
        split at h
        · rename_i hq
          split at h
          · cases h
          · rename_i hclosed
            cases h
            have hmem : q ∉ v := by
              intro hmem
              have hother := List.dropWhile_eq_nil_iff.mp hclosed q hmem
              simp at hother
            exact ⟨_, hs.trans (List.append_nil _).symm, .value _ v q hname hq hmem⟩
        · rename_i hq
          cases h
          refine ⟨Text.nameRun s ++ ['='], by simpa using hs, .quote _ _ hname ?_⟩
          intro c hc
          cases hc
          exact hq
      · cases h
        exact ⟨Text.nameRun s ++ ['='], by simpa using hs, .quote _ _ hname nofun⟩
    · rename_i hequals
      cases h
      refine ⟨Text.nameRun s, hs, .equals _ _ hname ?_⟩
      intro c hc
      obtain ⟨r, hr⟩ := List.head?_eq_some_iff.mp hc
      exact beq_eq_false_iff_ne.mpr fun heq => hequals r (heq ▸ hr)

theorem fails_of_tagEnd (s : List Char) (f : Failure) (h : tagEnd s = .error f) :
    f = ⟨.expectedToken ">", s⟩ ∧ ¬ ['>'] <+: s ∧ ¬ ['/', '>'] <+: s := by
  unfold tagEnd at h
  split at h
  · cases h
  · cases h
  · rename_i hslash hangle
    cases h
    refine ⟨rfl, ?_, ?_⟩
    · rintro ⟨r, rfl⟩
      exact hangle r rfl
    · rintro ⟨r, rfl⟩
      exact hslash r rfl

theorem fails_of_readAttributes (s : List Char) (f : Failure)
    (h : (readAttributes s).ending = .error f) :
    ∃ blanks attributes pairs part, s = blanks ++ (attributes ++ (part ++ f.rest)) ∧
      Text.AllBlank blanks ∧ AttributesText attributes pairs ∧
      (atTagEnd (part ++ f.rest) = false ∧ AttributeFails f.cause part f.rest ∨
        part = [] ∧ f.cause = .expectedToken ">" ∧ ¬ ['>'] <+: f.rest ∧
          ¬ ['/', '>'] <+: f.rest) := by
  obtain ⟨blanks, hblanks, hs⟩ := Text.exists_blanks_trimStart s
  rw [readAttributes] at h
  split at h
  · obtain ⟨rfl, hangle, hslash⟩ := fails_of_tagEnd _ f h
    exact ⟨blanks, [], [], [], hs, hblanks, .nil, Or.inr ⟨rfl, rfl, hangle, hslash⟩⟩
  · rename_i hend
    split at h
    · rename_i f' hread
      cases h
      obtain ⟨part, hpart, hfails⟩ := fails_of_readAttribute _ f hread
      refine ⟨blanks, [], [], part, by rw [List.nil_append, ← hpart, ← hs], hblanks, .nil,
        Or.inl ⟨?_, hfails⟩⟩
      rw [← hpart]
      simpa using hend
    · rename_i name raw rest hread
      have hlt := readAttribute_rest_lt _ _ _ _ hread
      have hle := Text.trimStart_length_le s
      obtain ⟨n, value, q, htrim, hname, hq, hvalue, _, _⟩ := pair_of_readAttribute _ _ _ _ hread
      obtain ⟨more, attributes, pairs, part, hrest, hmore, hattributes, hfails⟩ :=
        fails_of_readAttributes rest f h
      refine ⟨blanks, n ++ '=' :: q :: (value ++ q :: (more ++ attributes)), _, part, ?_, hblanks,
        .cons n value more attributes q pairs ?_ hq hvalue hmore hattributes, hfails⟩
      · rw [hs, htrim, hrest]
        simp
      · exact hname.before _ (Text.stopsAt_cons _ _ _ (by decide))
termination_by s.length
decreasing_by omega

theorem fails_of_readOpening (s : List Char) (f : Failure)
    (h : (readOpening s).ending = .error f) :
    ∃ front, s = front ++ f.rest ∧ OpeningFails f.cause front f.rest := by
  unfold readOpening at h
  split at h
  · rename_i hempty
    cases h
    exact ⟨[], rfl, .name s (Text.stopsAt_of_nameRun s hempty)⟩
  · rename_i hne
    have hname := Text.longestName_nameRun s (by simpa using hne)
    obtain ⟨blanks, attributes, pairs, part, hrest, hblanks, hattributes, hfails⟩ :=
      fails_of_readAttributes _ f h
    rw [hrest] at hname
    have hs : s = Text.nameRun s ++ (blanks ++ attributes) ++ (part ++ f.rest) := by
      rw [List.append_assoc, List.append_assoc, ← hrest, Text.nameRun_append_afterName]
    have hfront := TagFront.mk _ blanks attributes _ pairs hname hblanks hattributes
    rcases hfails with ⟨hend, hfails⟩ | ⟨rfl, hcause, hangle, hslash⟩
    · exact ⟨_, by rwa [List.append_assoc], .inside _ _ part _ hfront hend hfails⟩
    · rw [hcause]
      exact ⟨_, hs, .ending _ _ hfront hangle hslash⟩

/-! ### What has been read -/

/-- What a document holds in front of an element inside `around`, the innermost first. -/
inductive BeforeElement : List String → List Char → Prop
  | root : BeforeElement [] []
  | child (tag : String) (outer : List String) (ran : Bool) (before : List Char) :
      BeforeChild tag outer ran before → BeforeElement (tag :: outer) before

/-- A comment that has no end. -/
def openComment (body : List Char) : List Char := '<' :: '!' :: '-' :: '-' :: body

/-- What has been read of a document, in front of the rest, when the reader stands at a place. -/
inductive Reached : Place → List Char → List Char → Prop
  | start (rest : List Char) : Reached .start [] rest
  | inside (tag : String) (outer : List String) (ran : Bool) (before rest : List Char) :
      BeforeChild tag outer ran before → Follows ran rest → outer.length + 1 ≤ maxDepth →
      Reached (.inside tag outer) before rest
  | unended (tag : String) (outer : List String) (ran : Bool) (before body : List Char) :
      BeforeChild tag outer ran before → Text.occursIn commentEnd body = false →
      Reached (.inside tag outer) (before ++ openComment body) []
  | finished (text rest : List Char) (root : Element) :
      ElementText text root → root.tag = rootName → Reached .finished text rest

/-- A text begins like an element, and not like a closing tag or a comment. -/
def OpensElement (s : List Char) : Prop :=
  ['<'] <+: s ∧ ¬ ['<', '/'] <+: s ∧ ¬ ['<', '!', '-', '-'] <+: s

/-- The causes for which a document can fail, each with what stands before the place of the
failure and what stands there. -/
inductive FailsAt : Cause → List Char → List Char → Prop
  | start (rest : List Char) : Text.StopsAt (· == '<') rest → FailsAt .expectedOpening [] rest
  | opening (cause : Cause) (around : List String) (before front rest : List Char) :
      BeforeElement around before → OpeningFails cause front rest →
      FailsAt cause (before ++ '<' :: front) rest
  | nested (tag : String) (outer : List String) (ran : Bool) (before rest : List Char) :
      BeforeChild tag outer ran before → outer.length + 1 = maxDepth → OpensElement rest →
      FailsAt .tooDeep before rest
  | ended (tag : String) (outer : List String) (ran : Bool) (before : List Char) :
      BeforeChild tag outer ran before → FailsAt (.expectedToken "</") before []
  | unended (tag : String) (outer : List String) (ran : Bool) (before body : List Char) :
      BeforeChild tag outer ran before → Text.occursIn commentEnd body = false →
      FailsAt (.expectedToken "</") (before ++ openComment body) []
  | closingName (tag : String) (outer : List String) (ran : Bool) (before rest : List Char) :
      BeforeChild tag outer ran before → String.ofList (Text.nameRun rest) ≠ tag →
      FailsAt (.mismatchedClosing tag (String.ofList (Text.nameRun rest)))
        (before ++ ['<', '/']) rest
  | closingEnd (tag : String) (outer : List String) (ran : Bool) (before rest : List Char) :
      BeforeChild tag outer ran before → Text.StopsAt Text.isNameChar rest →
      ¬ ['>'] <+: rest → FailsAt (.expectedToken ">") (before ++ '<' :: '/' :: tag.toList) rest
  | root (text rest : List Char) (root : Element) :
      ElementText text root → root.tag ≠ rootName → FailsAt (.wrongRoot root.tag) text rest
  | trailing (text blanks rest : List Char) (c : Char) (root : Element) :
      ElementText text root → root.tag = rootName → Text.AllBlank blanks →
      Text.isBlank c = false → FailsAt .trailingContent (text ++ blanks) (c :: rest)

/-! ### Closing an element -/

/-- An open element is its opening tag and content that goes on with whatever may follow. -/
theorem BeforeChild.opened {tag : String} {outer : List String} {ran : Bool}
    {before : List Char} (h : BeforeChild tag outer ran before) :
    ∃ front opening inner, before = front ++ (opening ++ inner) ∧ BeforeElement outer front ∧
      OpeningText tag opening ∧ ∀ more nodes, Follows ran more → ChildrenText more nodes →
        ∃ all, ChildrenText (inner ++ more) all := by
  induction h with
  | root tag opening hopening =>
    exact ⟨[], opening, [], (List.append_nil _).symm, .root, hopening,
      fun more nodes _ hmore => ⟨nodes, hmore⟩⟩
  | opening tag parent outer ran before opening hbefore hopening _ =>
    exact ⟨before, opening, [], by rw [List.append_nil], .child _ _ _ _ hbefore, hopening,
      fun more nodes _ hmore => ⟨nodes, hmore⟩⟩
  | element tag outer ran before text e _ he ih =>
    obtain ⟨front, opening, inner, rfl, hfront, hopening, hinner⟩ := ih
    refine ⟨front, opening, inner ++ text, by simp, hfront, hopening, ?_⟩
    intro more nodes _ hmore
    rw [List.append_assoc]
    refine hinner _ _ ?_ (.element text more e nodes he hmore)
    obtain ⟨c, r, rfl, _⟩ := exists_nameChar_of_elementText text e he
    exact follows_angle ran _
  | comment tag outer ran before body _ hbody ih =>
    obtain ⟨front, opening, inner, rfl, hfront, hopening, hinner⟩ := ih
    refine ⟨front, opening, inner ++ Markup.comment body, by simp, hfront, hopening, ?_⟩
    intro more nodes _ hmore
    rw [List.append_assoc]
    exact hinner _ _ (follows_angle ran _) (.comment body more nodes hbody hmore)
  | blank tag outer before c _ hc ih =>
    obtain ⟨front, opening, inner, rfl, hfront, hopening, hinner⟩ := ih
    refine ⟨front, opening, inner ++ [c], by simp, hfront, hopening, ?_⟩
    intro more nodes _ hmore
    rw [List.append_assoc]
    exact hinner _ _ (follows_false _) (.blank c more nodes hc hmore)
  | run tag outer before run _ hne hstops hplain ih =>
    obtain ⟨front, opening, inner, rfl, hfront, hopening, hinner⟩ := ih
    refine ⟨front, opening, inner ++ run, by simp, hfront, hopening, ?_⟩
    intro more nodes hfollows hmore
    rw [List.append_assoc]
    exact hinner _ _ (follows_false _)
      (.run run more nodes ⟨hne, hstops, hplain, hfollows rfl⟩ hmore)

/-- The characters of a closing tag. -/
def closingTag (tag : String) : List Char := '<' :: '/' :: (tag.toList ++ ['>'])

/-- A closing tag completes the innermost open element. -/
theorem BeforeChild.closed {tag : String} {outer : List String} {ran : Bool}
    {before : List Char} (h : BeforeChild tag outer ran before) :
    ∃ front text root, before ++ closingTag tag = front ++ text ∧ BeforeElement outer front ∧
      ElementText text root ∧ root.tag = tag := by
  obtain ⟨front, opening, inner, rfl, hfront, hopening, hinner⟩ := h.opened
  obtain ⟨nodes, hnodes⟩ := hinner [] [] (fun _ => Text.stopsAt_nil _) .nil
  rw [List.append_nil] at hnodes
  obtain ⟨name, blanks, attributes, pairs, rfl, hname, hblanks, hattributes⟩ := hopening
  have hlong := hname.longest.append (inner ++ closingTag (String.ofList name)) (by simp)
  refine ⟨front, _, _, ?_, hfront, .full name blanks attributes inner pairs nodes
    (hname.before _ ?_) hblanks hattributes hnodes, rfl⟩
  · simp [closingTag]
  · simpa [closingTag] using hlong

/-! ### Steps -/

/-- What a step says of the text that it is taken in front of: it goes on from a place that has
been reached, or the failure it stops with is where it should be. -/
def Step.Holds (before s : List Char) : Step → Prop
  | .go _ place rest => ∃ read, s = read ++ rest ∧ Reached place (before ++ read) rest
  | .stop _ (some f) => ∃ read, s = read ++ f.rest ∧ FailsAt f.cause (before ++ read) f.rest
  | .stop _ none => True

/-- What was read earlier can be counted with what was read before. -/
theorem Step.Holds.earlier {before read s : List Char} {step : Step}
    (h : step.Holds (before ++ read) s) : step.Holds before (read ++ s) := by
  cases step with
  | go events place rest =>
    obtain ⟨more, rfl, hreached⟩ := h
    exact ⟨read ++ more, by simp, by simpa using hreached⟩
  | stop events failure =>
    cases failure with
    | none => exact trivial
    | some f =>
      obtain ⟨more, heq, hfails⟩ := h
      exact ⟨read ++ more, by simp [heq], by simpa using hfails⟩

theorem FailsAt.holds_stop {cause : Cause} {before s : List Char} (h : FailsAt cause before s)
    (events : List Event) : (Step.stop events (some ⟨cause, s⟩)).Holds before s :=
  ⟨[], rfl, by rwa [List.append_nil]⟩

/-- Behind a whole element the one around it goes on, or the document has its root. -/
theorem holds_leave (around : List String) (events : List Event) (root : Element)
    (before read front text rest : List Char) (hfront : BeforeElement around front)
    (hdepth : around.length ≤ maxDepth) (htext : ElementText text root)
    (hread : before ++ read = front ++ text) :
    (leave around events root.tag rest).Holds before (read ++ rest) := by
  cases hfront with
  | root =>
    simp only [leave]
    split
    · rename_i hname
      refine ⟨read, rfl, ?_⟩
      rw [hread]
      exact .finished text rest root htext hname
    · rename_i hname
      refine ⟨read, rfl, ?_⟩
      rw [hread]
      exact .root text rest root htext hname
  | child parent outer ran front hchild =>
    refine ⟨read, rfl, ?_⟩
    rw [hread]
    exact .inside parent outer false _ rest
      (.element parent outer ran front text root hchild htext) (follows_false rest) hdepth

theorem holds_enter (around : List String) (before s : List Char)
    (hbefore : BeforeElement around before) (hdepth : around.length + 1 ≤ maxDepth) :
    (enter around s).Holds before ('<' :: s) := by
  simp only [enter]
  split
  · rename_i f hend
    obtain ⟨front, hs, hfails⟩ := fails_of_readOpening s f hend
    exact ⟨'<' :: front, congrArg (List.cons '<') hs,
      .opening f.cause around before front f.rest hbefore hfails⟩
  · rename_i rest hend
    obtain ⟨name, blanks, attributes, pairs, hs, hrun, hname, hblanks, hattributes⟩ :=
      text_of_readOpening s rest true hend
    have hmark : blanks ++ (attributes ++ (endMark true ++ rest)) =
        (blanks ++ attributes ++ ['/', '>']) ++ rest := by simp [endMark]
    rw [hmark] at hname hs
    have htext : ElementText ('<' :: (name ++ (blanks ++ attributes ++ ['/', '>'])))
        ⟨String.ofList name, attributeTable pairs, []⟩ :=
      .empty name blanks attributes pairs (hname.before _ hname.longest.of_append) hblanks
        hattributes
    have hleave := holds_leave around ((readOpening s).events ++ [.closed]) _ before _ before _ rest
      hbefore (by omega) htext rfl
    have hall : '<' :: s = '<' :: (name ++ (blanks ++ attributes ++ ['/', '>'])) ++ rest := by
      rw [hs]
      simp
    rw [hall, hrun]
    exact hleave
  · rename_i rest hend
    obtain ⟨name, blanks, attributes, pairs, hs, hrun, hname, hblanks, hattributes⟩ :=
      text_of_readOpening s rest false hend
    have hmark : blanks ++ (attributes ++ (endMark false ++ rest)) =
        (blanks ++ (attributes ++ ['>'])) ++ rest := by simp [endMark]
    rw [hmark] at hname hs
    have hopening : OpeningText (String.ofList (Text.nameRun s))
        ('<' :: (name ++ (blanks ++ (attributes ++ ['>'])))) :=
      .mk name blanks attributes pairs (by rw [hrun]) (hname.before _ hname.longest.of_append)
        hblanks hattributes
    refine ⟨'<' :: (name ++ (blanks ++ (attributes ++ ['>']))), by simp [hs], ?_⟩
    refine .inside _ around false _ rest ?_ (follows_false rest) hdepth
    cases hbefore with
    | root => exact .root _ _ hopening
    | child parent outer ran before hchild =>
      exact .opening _ parent outer ran before _ hchild hopening

theorem eq_nil_of_piece (s : List Char) (h : piece s = .nothing) : s = [] := by
  unfold piece at h
  split at h <;> cases h
  rfl

theorem opensElement_of_piece (s rest : List Char) (h : piece s = .opening rest) :
    OpensElement s := by
  unfold piece at h
  split at h
  · cases h
  · cases h
  · cases h
  · rename_i r hclosing hcomment
    refine ⟨⟨r, rfl⟩, ?_, ?_⟩
    · rintro ⟨t, ht⟩
      exact hclosing t (List.cons.inj ht).2.symm
    · rintro ⟨t, ht⟩
      exact hcomment t (List.cons.inj ht).2.symm
  · cases h

theorem fails_of_readClosing (tag : String) (outer : List String) (ran : Bool)
    (before s : List Char) (f : Failure) (hbefore : BeforeChild tag outer ran before)
    (h : readClosing tag s = .error f) :
    ∃ read, '<' :: '/' :: s = read ++ f.rest ∧ FailsAt f.cause (before ++ read) f.rest := by
  have hs := Text.nameRun_append_afterName s
  simp only [readClosing] at h
  split at h
  · rename_i htag
    have hname : Text.nameRun s = tag.toList := by rw [← htag, String.toList_ofList]
    rw [hname] at hs
    split at h
    · cases h
    · rename_i hangle
      cases h
      refine ⟨'<' :: '/' :: tag.toList, congrArg (fun t => '<' :: '/' :: t) hs.symm,
        .closingEnd tag outer ran before _ hbefore (Text.stopsAt_dropWhile _ s) ?_⟩
      rintro ⟨r, hr⟩
      exact hangle r hr.symm
  · rename_i htag
    cases h
    exact ⟨['<', '/'], rfl, .closingName tag outer ran before s hbefore htag⟩

theorem holds_closed (tag : String) (outer : List String) (ran : Bool) (before s rest : List Char)
    (hbefore : BeforeChild tag outer ran before) (hdepth : outer.length ≤ maxDepth)
    (h : readClosing tag s = .ok rest) :
    (leave outer [.closed] tag rest).Holds before ('<' :: '/' :: s) := by
  obtain ⟨front, text, root, hread, hfront, htext, rfl⟩ := hbefore.closed
  have hs : '<' :: '/' :: s = closingTag root.tag ++ rest := by
    rw [text_of_readClosing root.tag s rest h]
    simp [closingTag]
  rw [hs]
  exact holds_leave outer [.closed] root before _ front text rest hfront hdepth htext hread

/-- One step inside an element, in front of what is not a blank. -/
theorem holds_stepInside (tag : String) (outer : List String) (ran : Bool) (before s : List Char)
    (hbefore : BeforeChild tag outer ran before) (hfollows : Follows ran s)
    (hdepth : outer.length + 1 ≤ maxDepth) (hfront : Text.StopsAt Text.isBlank s) :
    (stepInside tag outer s).Holds before s := by
  unfold stepInside
  split
  · rename_i hp
    rw [eq_nil_of_piece s hp]
    exact (FailsAt.ended tag outer ran before hbefore).holds_stop _
  · rename_i r hp
    rw [text_of_piece_closing s r hp]
    split
    · rename_i f hread
      exact fails_of_readClosing tag outer ran before r f hbefore hread
    · rename_i rest hread
      exact holds_closed tag outer ran before r rest hbefore (by omega) hread
  · rename_i rest hp
    obtain ⟨r, hs, hrest⟩ := text_of_piece_comment s rest hp
    rw [hs]
    rcases body_of_afterComment r with ⟨body, hbody, hr⟩ | ⟨hnone, hnil⟩
    · refine ⟨comment body, ?_, .inside tag outer false _ _
        (.comment tag outer ran before body hbefore hbody) (follows_false _) hdepth⟩
      rw [hrest, comment, List.cons_append, List.cons_append, List.cons_append, List.cons_append,
        ← hr]
    · rw [hrest, hnil]
      exact ⟨openComment r, (List.append_nil _).symm,
        .unended tag outer ran before r hbefore hnone⟩
  · rename_i r hp
    split
    · have hopens := opensElement_of_piece s r hp
      exact (FailsAt.nested tag outer ran before s hbefore (by omega) hopens).holds_stop _
    · rw [text_of_piece_opening s r hp]
      exact holds_enter (tag :: outer) before r (.child tag outer ran before hbefore)
        (by simp only [List.length_cons]; omega)
  · rename_i raw rest hp
    obtain ⟨hs, hrun⟩ := text_of_piece_run s raw rest hp hfront
    -- behind a run stands no other run
    have hran : ran = false := by
      cases ran with
      | false => rfl
      | true =>
        obtain ⟨c, r, rfl⟩ := List.exists_cons_of_ne_nil hrun.nonempty
        rw [hs] at hfollows
        have hc := Text.head_of_stopsAt _ c (r ++ rest) (hfollows rfl)
        exact absurd (by simpa using hc) fun heq : c = '<' => hrun.plain (by simp [heq])
    subst hran
    exact ⟨raw, hs, .inside tag outer true _ rest
      (.run tag outer before raw hbefore hrun.nonempty hrun.front hrun.plain)
      (fun _ => hrun.longest) hdepth⟩

/-- In front of what may follow, blanks are content. -/
theorem BeforeChild.blanks {tag : String} {outer : List String} {ran : Bool}
    {before blanks rest : List Char} (h : BeforeChild tag outer ran before)
    (hblanks : Text.AllBlank blanks) (hfollows : Follows ran (blanks ++ rest)) :
    BeforeChild tag outer ran (before ++ blanks) ∧ Follows ran rest := by
  cases ran with
  | true =>
    cases blanks with
    | nil =>
      rw [List.append_nil]
      exact ⟨h, hfollows⟩
    | cons c blanks =>
      have hc := Text.head_of_stopsAt _ c (blanks ++ rest) (hfollows rfl)
      have hangle : c = '<' := by simpa using hc
      have hblank := hblanks c List.mem_cons_self
      rw [hangle] at hblank
      exact absurd hblank (by decide)
  | false =>
    refine ⟨?_, follows_false rest⟩
    clear hfollows
    induction blanks generalizing before with
    | nil => rwa [List.append_nil]
    | cons c blanks ih =>
      have hrest : Text.AllBlank blanks := fun d hd => hblanks d (List.mem_cons_of_mem c hd)
      have hnext := ih hrest (.blank tag outer before c h (hblanks c List.mem_cons_self))
      rwa [List.append_assoc] at hnext

/-- Every step from a place that has been reached goes on from one, or fails where it should. -/
theorem Reached.holds_step {p : Place} {before s : List Char} (h : Reached p before s) :
    (step p s).Holds before s := by
  cases h with
  | start =>
    cases s with
    | nil => exact (FailsAt.start [] (Text.stopsAt_nil _)).holds_stop _
    | cons c r =>
      by_cases hc : c = '<'
      · subst hc
        exact holds_enter [] [] r .root (by decide)
      · rw [step_start_of_ne c r hc]
        have hstops := Text.stopsAt_cons (· == '<') c r (by simpa using hc)
        exact (FailsAt.start _ hstops).holds_stop _
  | inside tag outer ran before rest hbefore hfollows hdepth =>
    obtain ⟨blanks, hblanks, hs⟩ := Text.exists_blanks_trimStart s
    have hstops : Text.StopsAt Text.isBlank (Text.trimStart s) := Text.stopsAt_dropWhile _ s
    rw [step_inside]
    generalize Text.trimStart s = t at hs hstops
    subst hs
    obtain ⟨hbefore, hfollows⟩ := hbefore.blanks hblanks hfollows
    exact (holds_stepInside tag outer ran _ t hbefore hfollows hdepth hstops).earlier
  | unended tag outer ran before body hbefore hbody =>
    exact (FailsAt.unended tag outer ran before body hbefore hbody).holds_stop _
  | finished text rest root htext hname =>
    obtain ⟨blanks, hblanks, hs⟩ := Text.exists_blanks_trimStart s
    cases htrim : Text.trimStart s with
    | nil =>
      simp only [step, htrim]
      exact trivial
    | cons c r =>
      simp only [step, htrim]
      refine ⟨blanks, by rw [← htrim]; exact hs, ?_⟩
      exact .trailing before blanks r c root htext hname hblanks
        (Text.not_blank_of_trimStart s c r htrim)

/-! ### Whole readings -/

/-- A reading that fails has read the text up to the place of its failure, and the cause of the
failure is what that place shows. -/
theorem fails_of_readFrom {p : Place} {before s : List Char} {f : Failure}
    (hreached : Reached p before s) (h : (readFrom p s).failure = some f) :
    ∃ read, s = read ++ f.rest ∧ FailsAt f.cause (before ++ read) f.rest := by
  have hstep := hreached.holds_step
  rw [readFrom_eq_reading] at h
  cases hgo : step p s with
  | stop events failure =>
    rw [hgo] at h hstep
    cases failure with
    | none => cases h
    | some f' =>
      cases h
      exact hstep
  | go events place rest =>
    have hlt := step_rest_lt p place events s rest hgo
    rw [hgo] at h hstep
    rw [Step.reading, Reading.failure_after] at h
    obtain ⟨read, rfl, hnext⟩ := hstep
    obtain ⟨more, hmore, hfails⟩ := fails_of_readFrom hnext h
    refine ⟨read ++ more, by rw [List.append_assoc, ← hmore], ?_⟩
    rwa [← List.append_assoc]
termination_by s.length

end FrameUI.Markup
