import FrameUI.Proofs.Style.Compounds
import FrameUI.Proofs.Text.Words

/-!
# Reading selectors

The text up to an opening brace is trimmed, its comments are blanked, and its words are read
as compounds. Main statements: `readHead_of_selectorText`, that this gives the selector that
was spelled, and `openScope?_of_ruleText`, that at the top of a sheet no other rule than the
one with the selector `scope` is taken for a block.
-/

namespace FrameUI.Style

/-! ### Comments in selectors -/

theorem blankComments_of_ne (c : Char) (s : List Char) (h : c ≠ '/') :
    blankComments (c :: s) = c :: blankComments s := by
  rw [blankComments]
  intro r heq
  subst heq
  exact absurd rfl h

theorem blankComments_append (word s : List Char) (h : ∀ c ∈ word, c ≠ '/') :
    blankComments (word ++ s) = word ++ blankComments s := by
  induction word with
  | nil => rfl
  | cons c word ih =>
    have hrest := ih fun d hd => h d (List.mem_cons_of_mem c hd)
    rw [List.cons_append, blankComments_of_ne c _ (h c List.mem_cons_self), hrest,
      List.cons_append]

theorem dropComment_of_body (body rest : List Char)
    (h : Text.occursIn commentEnd body = false) :
    dropComment (body ++ '*' :: '/' :: rest) = blankComments rest := by
  induction body with
  | nil => rw [List.nil_append, dropComment]
  | cons c body ih =>
    obtain ⟨hhere, hbody⟩ := occursIn_cons commentEnd c body h
    rw [List.cons_append, dropComment]
    · exact ih hbody
    · intro r hc heq
      exact not_end_of_body c body rest r hhere hc heq

/-- Blanking makes blanks of trivia, and leaves some where there were some. -/
theorem blankComments_trivia (trivia s : List Char) (h : Trivia trivia) :
    ∃ blanks, Text.AllBlank blanks ∧ (trivia ≠ [] → blanks ≠ []) ∧
      blankComments (trivia ++ s) = blanks ++ blankComments s := by
  induction h with
  | nil => exact ⟨[], Text.allBlank_nil, fun hne => absurd rfl hne, rfl⟩
  | space c rest hc _ ih =>
    obtain ⟨blanks, hblanks, _, hblanked⟩ := ih
    have hslash : c ≠ '/' := by
      intro heq
      subst heq
      exact absurd hc (by decide)
    refine ⟨c :: blanks, hblanks.cons (isBlank_of_isSpace c hc), fun _ => List.cons_ne_nil _ _, ?_⟩
    rw [List.cons_append, blankComments_of_ne c _ hslash, hblanked, List.cons_append]
  | comment body rest hbody _ ih =>
    obtain ⟨blanks, hblanks, _, hblanked⟩ := ih
    refine ⟨' ' :: blanks, hblanks.cons (by decide), fun _ => List.cons_ne_nil _ _, ?_⟩
    have hassoc : '/' :: '*' :: (body ++ '*' :: '/' :: rest) ++ s =
        '/' :: '*' :: (body ++ '*' :: '/' :: (rest ++ s)) := by
      simp
    rw [hassoc, blankComments, dropComment_of_body body _ hbody, hblanked, List.cons_append]

/-- Trivia are trivia that end in no white space, followed by white space. -/
theorem Trivia.exists_core (trivia : List Char) (h : Trivia trivia) :
    ∃ core blanks, trivia = core ++ blanks ∧ Trivia core ∧ Text.AllBlank blanks ∧
      (core = [] ∨ ∃ front, core = front ++ ['/']) := by
  induction h with
  | nil => exact ⟨[], [], rfl, .nil, Text.allBlank_nil, Or.inl rfl⟩
  | space c rest hc _ ih =>
    obtain ⟨core, blanks, rfl, hcore, hblanks, hend⟩ := ih
    rcases hend with rfl | ⟨front, hfront⟩
    · exact ⟨[], c :: blanks, rfl, .nil, hblanks.cons (isBlank_of_isSpace c hc), Or.inl rfl⟩
    · refine ⟨c :: core, blanks, rfl, .space c core hc hcore, hblanks, Or.inr ⟨c :: front, ?_⟩⟩
      rw [hfront, List.cons_append]
  | comment body rest hbody _ ih =>
    obtain ⟨core, blanks, rfl, hcore, hblanks, hend⟩ := ih
    refine ⟨'/' :: '*' :: (body ++ '*' :: '/' :: core), blanks, by simp,
      .comment body core hbody hcore, hblanks, Or.inr ?_⟩
    rcases hend with rfl | ⟨front, hfront⟩
    · exact ⟨'/' :: '*' :: (body ++ ['*']), by simp⟩
    · exact ⟨'/' :: '*' :: (body ++ '*' :: '/' :: front), by simp [hfront]⟩

/-! ### Reading heads -/

theorem slash_not_mem_spelled (c : Compound) (h : c.Supported) :
    ∀ d ∈ c.spelled, d ≠ '/' :=
  fun d hd => ne_of_compoundChar d '/' (h.chars c d hd) (by decide)

theorem words_spelled (c : Compound) (h : c.Supported) : Text.words c.spelled = [c.spelled] :=
  Text.words_of_word c.spelled (h.spelled_ne_nil c) fun d hd =>
    not_blank_of_compoundChar d (h.chars c d hd)

theorem words_blankComments_selector (cs : List Compound) (text trivia : List Char)
    (h : SelectorText cs text) (htrivia : Trivia trivia) :
    Text.words (blankComments (text ++ trivia)) = cs.map Compound.spelled := by
  induction h with
  | last c hc =>
    obtain ⟨blanks, hblanks, _, hblanked⟩ := blankComments_trivia trivia [] htrivia
    have hnone : blankComments [] = [] := by rw [blankComments]
    rw [List.append_nil, hnone, List.append_nil] at hblanked
    rw [blankComments_append _ _ (slash_not_mem_spelled c hc), hblanked,
      Text.words_append_blanks _ blanks hblanks, words_spelled c hc]
    rfl
  | more c cs between rest hc hbetween hne _ _ ih =>
    obtain ⟨blanks, hblanks, hsome, hblanked⟩ :=
      blankComments_trivia between (rest ++ trivia) hbetween
    have hassoc : c.spelled ++ (between ++ rest) ++ trivia =
        c.spelled ++ (between ++ (rest ++ trivia)) := by
      simp
    rw [hassoc, blankComments_append _ _ (slash_not_mem_spelled c hc), hblanked]
    cases blanks with
    | nil => exact absurd rfl (hsome hne)
    | cons d blanks =>
      have hd := hblanks d List.mem_cons_self
      have hmore : Text.AllBlank blanks := fun b hb => hblanks b (List.mem_cons_of_mem d hb)
      rw [List.cons_append, Text.words_append_blank _ _ d hd, words_spelled c hc,
        Text.words_blanks_append _ _ hmore, ih]
      rfl

theorem mapM_ofWord?_spelled (cs : List Compound) (h : ∀ c ∈ cs, c.Supported) :
    (cs.map Compound.spelled).mapM Compound.ofWord? = some cs := by
  induction cs with
  | nil => rfl
  | cons c cs ih =>
    have hc := ofWord?_spelled c (h c List.mem_cons_self)
    have hcs := ih fun d hd => h d (List.mem_cons_of_mem c hd)
    rw [List.map_cons, List.mapM_cons, hc, hcs]
    rfl

theorem SelectorText.supported (cs : List Compound) (text : List Char)
    (h : SelectorText cs text) : cs ≠ [] ∧ ∀ c ∈ cs, c.Supported := by
  induction h with
  | last c hc =>
    refine ⟨List.cons_ne_nil _ _, ?_⟩
    intro d hd
    rw [List.mem_singleton.mp hd]
    exact hc
  | more c cs _ _ hc _ _ _ _ ih =>
    refine ⟨List.cons_ne_nil _ _, ?_⟩
    intro d hd
    rcases List.mem_cons.mp hd with rfl | hd
    · exact hc
    · exact ih.2 d hd

theorem SelectorText.ends (cs : List Compound) (text : List Char) (h : SelectorText cs text) :
    (∃ c r, text = c :: r ∧ isCompoundChar c = true) ∧
      ∃ front c, text = front ++ [c] ∧ isCompoundChar c = true := by
  have hword : ∀ c : Compound, c.Supported →
      (∃ d r, c.spelled = d :: r ∧ isCompoundChar d = true) ∧
        ∃ front d, c.spelled = front ++ [d] ∧ isCompoundChar d = true := by
    intro c hc
    have hne := hc.spelled_ne_nil c
    constructor
    · obtain ⟨d, r, heq⟩ := List.exists_cons_of_ne_nil hne
      exact ⟨d, r, heq, hc.chars c d (by rw [heq]; exact List.mem_cons_self)⟩
    · refine ⟨c.spelled.dropLast, c.spelled.getLast hne, ?_, ?_⟩
      · exact (List.dropLast_concat_getLast hne).symm
      · exact hc.chars c _ (List.getLast_mem hne)
  induction h with
  | last c hc => exact hword c hc
  | more c cs between rest hc _ _ _ _ ih =>
    constructor
    · obtain ⟨d, r, heq, hd⟩ := (hword c hc).1
      exact ⟨d, r ++ (between ++ rest), by rw [heq, List.cons_append], hd⟩
    · obtain ⟨front, d, heq, hd⟩ := ih.2
      exact ⟨c.spelled ++ (between ++ front), d, by simp [heq], hd⟩

theorem SelectorText.no_brace (cs : List Compound) (text : List Char)
    (h : SelectorText cs text) : '{' ∉ text := by
  have hword : ∀ c : Compound, c.Supported → '{' ∉ c.spelled := by
    intro c hc hmem
    exact ne_of_compoundChar '{' '{' (hc.chars c '{' hmem) (by decide) rfl
  induction h with
  | last c hc => exact hword c hc
  | more c cs between rest hc _ _ hbrace _ ih =>
    intro hmem
    rcases List.mem_append.mp hmem with hmem | hmem
    · exact hword c hc hmem
    · rcases List.mem_append.mp hmem with hmem | hmem
      · exact hbrace hmem
      · exact ih hmem

/-- Trimming a selector with the trivia behind it takes away white space at the most. -/
theorem trim_selector (cs : List Compound) (text trivia : List Char) (h : SelectorText cs text)
    (htrivia : Trivia trivia) :
    ∃ core, Trivia core ∧ Text.trim (text ++ trivia) = text ++ core := by
  obtain ⟨core, blanks, rfl, hcore, hblanks, hend⟩ := htrivia.exists_core
  obtain ⟨⟨c, r, hfirst, hc⟩, front, d, hlast, hd⟩ := h.ends
  refine ⟨core, hcore, ?_⟩
  have hstart : Text.trimStart (text ++ (core ++ blanks)) = text ++ (core ++ blanks) := by
    apply Text.trimStart_of_stopsAt
    rw [hfirst]
    exact Text.stopsAt_cons _ c _ (not_blank_of_compoundChar c hc)
  rw [Text.trim, hstart, ← List.append_assoc, Text.trimEnd_append_blanks _ blanks hblanks]
  rcases hend with rfl | ⟨front', hfront'⟩
  · rw [List.append_nil, hlast]
    exact Text.trimEnd_append_singleton front d (not_blank_of_compoundChar d hd)
  · rw [hfront', ← List.append_assoc]
    exact Text.trimEnd_append_singleton _ '/' (by decide)

theorem readHead_of_selectorText (selector : Selector) (text trivia body : List Char)
    (h : SelectorText selector.compounds text) (htrivia : Trivia trivia)
    (hbrace : '{' ∉ trivia) :
    ∃ shown, readHead (text ++ (trivia ++ '{' :: body)) = .ok (shown, selector, body) := by
  have hin : ∀ c ∈ text ++ trivia, (c != '{') = true := by
    intro c hc
    rw [bne_iff_ne]
    intro heq
    subst heq
    rcases List.mem_append.mp hc with hc | hc
    · exact h.no_brace _ _ hc
    · exact hbrace hc
  have hstop : Text.StopsAt (· != '{') ('{' :: body) := Text.stopsAt_cons _ '{' body (by decide)
  have htake := Text.takeWhile_append_stop (· != '{') (text ++ trivia) _ hin hstop
  have hdrop := Text.dropWhile_append_stop (· != '{') (text ++ trivia) _ hin hstop
  rw [List.append_assoc] at htake hdrop
  obtain ⟨core, hcore, htrim⟩ := trim_selector _ text trivia h htrivia
  obtain ⟨hne, hsupported⟩ := h.supported
  have hparse : Selector.parse? (Text.trim (blankComments (text ++ core))) = some selector := by
    rw [Selector.parse?, Text.words_trim, words_blankComments_selector _ text core h hcore,
      mapM_ofWord?_spelled _ hsupported]
    obtain ⟨compounds⟩ := selector
    cases compounds with
    | nil => exact absurd rfl hne
    | cons c cs => rfl
  refine ⟨String.ofList (Text.trim (blankComments (text ++ core))), ?_⟩
  simp only [readHead, readSelector, htake, hdrop, htrim, hparse]

/-! ### Telling rules from variables and blocks -/

theorem failsOnTrivia_compoundChar : FailsOnTrivia isCompoundChar := by
  constructor
  · intro c hc
    rcases isSpace_cases c hc with rfl | rfl | rfl | rfl <;> decide
  · decide

/-- What follows the first compound of a head: trivia, and behind them another compound or
the opening brace. -/
structure AfterFirst (cs : List Compound) (rest : List Char) : Prop where
  stops : Text.StopsAt isCompoundChar rest
  next : ∃ d r, afterTrivia rest = d :: r ∧ (isCompoundChar d = true ∨ cs = [] ∧ d = '{')

theorem SelectorText.first (cs : List Compound) (text trivia body : List Char)
    (h : SelectorText cs text) (htrivia : Trivia trivia) :
    ∃ c more rest, cs = c :: more ∧ c.Supported ∧
      text ++ (trivia ++ '{' :: body) = c.spelled ++ rest ∧ AfterFirst more rest := by
  cases h with
  | last c hc =>
    refine ⟨c, [], trivia ++ '{' :: body, rfl, hc, rfl, ?_, '{', body, ?_, Or.inr ⟨rfl, rfl⟩⟩
    · exact htrivia.stopsAt _ _ _ failsOnTrivia_compoundChar
        (Text.stopsAt_cons _ '{' body (by decide))
    · exact afterTrivia_append_token trivia body '{' htrivia (by decide) (by decide)
  | more c cs between rest hc hbetween hne _ hrest =>
    obtain ⟨⟨d, r, hfirst, hd⟩, _⟩ := hrest.ends
    refine ⟨c, cs, between ++ (rest ++ (trivia ++ '{' :: body)), rfl, hc, by simp, ?_, ?_⟩
    · have hbefore : Text.StopsAt isCompoundChar (between ++ []) :=
        hbetween.stopsAt _ _ _ failsOnTrivia_compoundChar (Text.stopsAt_nil _)
      rw [List.append_nil] at hbefore
      exact hbefore.append _ hne
    · refine ⟨d, r ++ (trivia ++ '{' :: body), ?_, Or.inl hd⟩
      rw [hfirst, List.cons_append]
      exact afterTrivia_append_token between _ d hbetween (not_space_of_compoundChar d hd)
        (ne_of_compoundChar d '/' hd (by decide))

theorem AfterFirst.stopsAt_nameChar (cs : List Compound) (rest : List Char)
    (h : AfterFirst cs rest) : Text.StopsAt Text.isNameChar rest := by
  intro c hc
  have hcompound := h.stops c hc
  cases hname : Text.isNameChar c with
  | false => rfl
  | true => simp [isCompoundChar, hname] at hcompound

theorem stopsAt_qualifiers_append (parts : List SimpleSelector) (rest : List Char)
    (htags : ∀ part ∈ parts, part.isTag = false) (hrest : Text.StopsAt Text.isNameChar rest) :
    Text.StopsAt Text.isNameChar (parts.flatMap SimpleSelector.spelled ++ rest) := by
  have hparts := stopsAt_qualifiers parts htags
  cases hs : parts.flatMap SimpleSelector.spelled with
  | nil => exact hrest
  | cons c r =>
    rw [hs] at hparts
    exact hparts.append rest (List.cons_ne_nil c r)

/-- Behind the tag of the first compound, and any trivia, stands a character of a compound,
unless the tag is all that there is of the selector. -/
theorem afterTrivia_of_afterFirst (parts : List SimpleSelector) (cs : List Compound)
    (rest : List Char) (hnames : ∀ part ∈ parts, IsIdent part.name) (h : AfterFirst cs rest) :
    ∃ d r, afterTrivia (parts.flatMap SimpleSelector.spelled ++ rest) = d :: r ∧
      (isCompoundChar d = true ∨ parts = [] ∧ cs = [] ∧ d = '{') := by
  cases parts with
  | nil =>
    obtain ⟨d, r, hafter, hd⟩ := h.next
    refine ⟨d, r, hafter, ?_⟩
    rcases hd with hd | hd
    · exact Or.inl hd
    · exact Or.inr ⟨rfl, hd⟩
  | cons part parts =>
    have hname := hnames part List.mem_cons_self
    obtain ⟨d, r, heq⟩ := List.exists_cons_of_ne_nil (spelled_ne_nil part hname)
    have hd : isCompoundChar d = true := by
      apply compoundChar_of_mem_part part hname d
      rw [heq]
      exact List.mem_cons_self
    refine ⟨d, r ++ (parts.flatMap SimpleSelector.spelled ++ rest), ?_, Or.inl hd⟩
    rw [List.flatMap_cons, heq, List.cons_append, List.cons_append, List.append_assoc]
    exact afterTrivia_of_ne d _ (not_space_of_compoundChar d hd)
      (ne_of_compoundChar d '/' hd (by decide))

/-- The head of a rule, with a tag in front or without one. -/
theorem RuleText.head_cases (r : RuleItem) (text s : List Char) (h : RuleText r text) :
    (∃ c rest, text ++ s = c :: rest ∧ (c = '.' ∨ c = '#')) ∨
      ∃ name parts cs rest, r.selector = ⟨⟨.tag name :: parts⟩ :: cs⟩ ∧ IsIdent name ∧
        (∀ part ∈ parts, IsIdent part.name) ∧ (∀ part ∈ parts, part.isTag = false) ∧
        text ++ s = name.toList ++ (parts.flatMap SimpleSelector.spelled ++ rest) ∧
        AfterFirst cs rest := by
  obtain ⟨head, trivia, body, hhead, htrivia, _, _⟩ := h
  obtain ⟨c, more, rest, hcs, hc, heq, hafter⟩ := hhead.first _ head trivia (body ++ s) htrivia
  have hassoc : head ++ (trivia ++ '{' :: body) ++ s = c.spelled ++ rest := by
    rw [← heq]
    simp
  obtain ⟨parts⟩ := c
  cases parts with
  | nil => exact absurd rfl hc.nonempty
  | cons part parts =>
    have hmore : ∀ p ∈ parts, IsIdent p.name := fun p hp =>
      hc.names p (List.mem_cons_of_mem part hp)
    cases part with
    | tag name =>
      refine Or.inr ⟨name, parts, more, rest, ?_, hc.names _ List.mem_cons_self, hmore,
        hc.tagFirst, ?_, hafter⟩
      · rw [← hcs]
      · rw [hassoc]
        simp [Compound.spelled, SimpleSelector.spelled]
    | className name => exact Or.inl ⟨'.', _, hassoc, Or.inl rfl⟩
    | id name => exact Or.inl ⟨'#', _, hassoc, Or.inr rfl⟩

theorem startsVariable_of_ruleText (r : RuleItem) (text s : List Char) (h : RuleText r text) :
    startsVariable (text ++ s) = false := by
  rcases h.head_cases r text s with ⟨c, rest, heq, hc⟩ |
    ⟨name, parts, cs, rest, _, hname, hnames, htags, heq, hafter⟩
  · have hstop : Text.StopsAt Text.isNameChar (c :: rest) := by
      rcases hc with rfl | rfl
      · exact Text.stopsAt_cons _ '.' rest (by decide)
      · exact Text.stopsAt_cons _ '#' rest (by decide)
    rw [heq, startsVariable, readIdent?_of_stopsAt _ hstop]
  · have hstop := stopsAt_qualifiers_append parts rest htags (hafter.stopsAt_nameChar cs rest)
    obtain ⟨d, r', hnext, hd⟩ := afterTrivia_of_afterFirst parts cs rest hnames hafter
    have hcolon : d ≠ ':' := by
      rcases hd with hd | ⟨_, _, rfl⟩
      · exact ne_of_compoundChar d ':' hd (by decide)
      · decide
    rw [heq, startsVariable, readIdent?_of_longestName _ _ (hname.longestName name _ hstop)]
    simp [hnext, hcolon]

theorem openScope?_of_block (trivia s : List Char) (h : Trivia trivia) :
    openScope? (scopeWord ++ (trivia ++ '{' :: s)) = some s := by
  have hlead : Text.dropLead? scopeWord (scopeWord ++ (trivia ++ '{' :: s)) =
      some (trivia ++ '{' :: s) := (Text.dropLead?_eq_some _ _ _).mpr rfl
  have hbrace := afterTrivia_append_token trivia s '{' h (by decide) (by decide)
  simp only [openScope?, scopeWord] at hlead ⊢
  simp only [hlead, hbrace]
  exact (Text.dropLead?_eq_some _ _ _).mpr rfl

/-- A block begins with the keyword, and behind trivia follows a brace. -/
theorem block_of_openScope? (s body : List Char) (h : openScope? s = some body) :
    ∃ after, s = scopeWord ++ after ∧ afterTrivia after = '{' :: body := by
  unfold openScope? at h
  split at h
  · cases h
  · rename_i after hlead
    exact ⟨after, (Text.dropLead?_eq_some _ _ _).mp hlead, (Text.dropLead?_eq_some _ _ _).mp h⟩

theorem stopsAt_nameChar_of_brace (after body : List Char)
    (h : afterTrivia after = '{' :: body) : Text.StopsAt Text.isNameChar after := by
  cases after with
  | nil => exact Text.stopsAt_nil _
  | cons c after =>
    cases hc : Text.isNameChar c with
    | false => exact Text.stopsAt_cons _ c after hc
    | true =>
      have hcompound : isCompoundChar c = true := by simp [isCompoundChar, hc]
      rw [afterTrivia_of_ne c after (not_space_of_compoundChar c hcompound)
        (ne_of_compoundChar c '/' hcompound (by decide))] at h
      rw [(List.cons.inj h).1] at hc
      exact absurd hc (by decide)

/-- No rule is taken for a block, but for the one with the keyword as its selector. -/
theorem openScope?_of_ruleText (r : RuleItem) (text s : List Char) (h : RuleText r text)
    (hscope : r.selector ≠ scopeSelector) : openScope? (text ++ s) = none := by
  cases hopen : openScope? (text ++ s) with
  | none => rfl
  | some body =>
    exfalso
    obtain ⟨after, hword, hbrace⟩ := block_of_openScope? _ _ hopen
    rcases h.head_cases r text s with ⟨c, rest, heq, hc⟩ |
      ⟨name, parts, cs, rest, hselector, hname, hnames, htags, heq, hafter⟩
    · rw [heq] at hword
      have hs := (List.cons.inj hword).1
      rcases hc with rfl | rfl
      · exact absurd hs (by decide)
      · exact absurd hs (by decide)
    · -- The tag in front is the keyword, and what follows both is the same.
      have hstop := stopsAt_qualifiers_append parts rest htags (hafter.stopsAt_nameChar cs rest)
      have hlongest := hname.longestName name _ hstop
      have hkeyword : Text.LongestName scopeWord after :=
        ⟨List.cons_ne_nil _ _, List.all_eq_true.mp rfl, stopsAt_nameChar_of_brace after body hbrace⟩
      obtain ⟨hnameWord, hrest⟩ := hlongest.unique hkeyword (heq.symm.trans hword)
      obtain ⟨d, r', hnext, hd⟩ := afterTrivia_of_afterFirst parts cs rest hnames hafter
      rw [hrest, hbrace] at hnext
      have hdBrace := (List.cons.inj hnext).1
      rcases hd with hd | ⟨rfl, rfl, _⟩
      · exact ne_of_compoundChar d '{' hd (by decide) hdBrace.symm
      · apply hscope
        have hscopeName : name = "scope" := by
          rw [← String.ofList_toList (s := name), hnameWord]
          rfl
        rw [hselector, hscopeName]
        rfl

end FrameUI.Style
