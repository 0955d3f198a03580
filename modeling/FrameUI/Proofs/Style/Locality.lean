import FrameUI.Proofs.Style.Selectors
import FrameUI.Proofs.Style.Spots

/-!
# What a step has read

A step of the reader consumes the text of one item, and what follows it counts in two cases only:
a head may open a comment that it does not close, and then the text behind that comment tells
whether a colon or a brace follows the name in front. Texts that agree on this can stand for each
other. Main statement: `Reads.local`, that a run of steps goes through alike when what follows it
is put in another form.
-/

namespace FrameUI.Style

/-! ### Trivia -/

/-- A comment does not end with the character in front of its body either. -/
theorem occursIn_commentEnd_cons (c : Char) (body rest : List Char)
    (hne : ∀ r', c = '*' → body ++ '*' :: '/' :: rest = '/' :: r' → False)
    (hbody : Text.occursIn commentEnd body = false) :
    Text.occursIn commentEnd (c :: body) = false := by
  rw [Text.occursIn, hbody, Bool.or_false]
  cases body with
  | nil => simp [commentEnd, List.isPrefixOf]
  | cons e body =>
    by_cases hc : c = '*'
    · by_cases he : e = '/'
      · exact absurd (by rw [he]; rfl) (hne _ hc)
      · simp [commentEnd, List.isPrefixOf, Ne.symm he]
    · simp [commentEnd, List.isPrefixOf, Ne.symm hc]

/-- What is skipped in front of a token is trivia, and no trivia begin with the token. -/
theorem trivia_of_afterTrivia (s : List Char) (c : Char) (r : List Char)
    (h : afterTrivia s = c :: r) :
    (∃ gap, Trivia gap ∧ s = gap ++ c :: r) ∧ isSpace c = false ∧
      ∀ r', c = '/' → r = '*' :: r' → False := by
  have hboth :
      (∀ s, afterTrivia s = c :: r → (∃ gap, Trivia gap ∧ s = gap ++ c :: r) ∧
        isSpace c = false ∧ ∀ r', c = '/' → r = '*' :: r' → False) ∧
      ∀ s, afterCommentText s = c :: r → (∃ body gap, Text.occursIn commentEnd body = false ∧
        Trivia gap ∧ s = body ++ '*' :: '/' :: (gap ++ c :: r)) ∧
        isSpace c = false ∧ ∀ r', c = '/' → r = '*' :: r' → False := by
    refine afterTrivia.mutual_induct
      (fun s => afterTrivia s = c :: r → (∃ gap, Trivia gap ∧ s = gap ++ c :: r) ∧
        isSpace c = false ∧ ∀ r', c = '/' → r = '*' :: r' → False)
      (fun s => afterCommentText s = c :: r → (∃ body gap, Text.occursIn commentEnd body = false ∧
        Trivia gap ∧ s = body ++ '*' :: '/' :: (gap ++ c :: r)) ∧
        isSpace c = false ∧ ∀ r', c = '/' → r = '*' :: r' → False) ?_ ?_ ?_ ?_ ?_ ?_ ?_
    · intro t ih h
      rw [afterTrivia] at h
      obtain ⟨⟨body, gap, hbody, hgap, rfl⟩, hfront⟩ := ih h
      exact ⟨⟨_, .comment body gap hbody hgap, by simp⟩, hfront⟩
    · intro d t _ hd ih h
      rw [afterTrivia_space d t hd] at h
      obtain ⟨⟨gap, hgap, rfl⟩, hfront⟩ := ih h
      exact ⟨⟨d :: gap, .space d gap hd hgap, rfl⟩, hfront⟩
    · intro d t hne hd h
      have hspace := Bool.eq_false_iff.mpr hd
      rw [afterTrivia_cons hspace hne] at h
      obtain ⟨rfl, rfl⟩ := List.cons.inj h
      exact ⟨⟨[], .nil, rfl⟩, hspace, hne⟩
    · intro h
      rw [afterTrivia] at h
      cases h
    · intro t ih h
      rw [afterCommentText] at h
      obtain ⟨⟨gap, hgap, rfl⟩, hfront⟩ := ih h
      exact ⟨⟨[], gap, rfl, hgap, rfl⟩, hfront⟩
    · intro d t hne ih h
      rw [afterCommentText_cons hne] at h
      obtain ⟨⟨body, gap, hbody, hgap, rfl⟩, hfront⟩ := ih h
      exact ⟨⟨d :: body, gap, occursIn_commentEnd_cons d body _ hne hbody, hgap, rfl⟩, hfront⟩
    · intro h
      rw [afterCommentText] at h
      cases h
  exact hboth.1 s h

/-! ### Declarations -/

/-- A value that leads to a semicolon is a value of the grammar. -/
theorem valueText_of_readValue? (q : Char) (s value rest more : List Char)
    (hspace : isSpace q = false) (hcomment : ∀ r, q = '/' → s = '*' :: r → False)
    (hread : readValue? (q :: s) = some (value, rest)) (hend : afterTrivia rest = ';' :: more) :
    ∃ text, ValueText (String.ofList value) text ∧ q :: s = text ++ more := by
  obtain ⟨⟨gap, hgap, hrest⟩, _⟩ := trivia_of_afterTrivia rest ';' more hend
  simp only [readValue?] at hread
  split at hread
  · rename_i hquote
    split at hread
    · rename_i d behind hdrop
      obtain ⟨rfl, rfl⟩ := Prod.mk.inj (Option.some.inj hread)
      obtain ⟨hs, hd⟩ := Text.eq_of_dropWhile_eq_cons _ s _ d hdrop
      obtain rfl : d = q := by simpa using hd
      have hfree : d ∉ s.takeWhile (· != d) := by
        intro hmem
        simpa using Text.all_of_mem_takeWhile _ s d hmem
      refine ⟨_, .quoted d (s.takeWhile (· != d)) gap hquote hfree hgap, ?_⟩
      calc d :: s = d :: (s.takeWhile (· != d) ++ d :: behind) := congrArg (d :: ·) hs
        _ = _ := by simp [hrest]
    · cases hread
  · rename_i hquote
    obtain ⟨rfl, rfl⟩ := Prod.mk.inj (Option.some.inj hread)
    have hsplit := (List.takeWhile_append_dropWhile (p := isBare) (l := q :: s)).symm
    refine ⟨_, .bare ((q :: s).takeWhile isBare) gap (Text.all_of_mem_takeWhile _ _) ?_ ?_ hgap ?_,
      ?_⟩
    · intro c r heq
      have hc : q = c := by
        rw [heq] at hsplit
        exact (List.cons.inj hsplit).1
      subst hc
      exact not_or.mp hquote
    · intro r heq
      rw [heq] at hsplit
      obtain ⟨hq, hs⟩ := List.cons.inj hsplit
      exact hcomment _ hq hs
    · intro hne
      cases hgap with
      | nil => exact absurd rfl hne
      | space c r hc _ => exact ⟨c, r, hc, rfl⟩
      | comment body r _ _ =>
        have hstop := Text.stopsAt_dropWhile isBare (q :: s)
        rw [hrest] at hstop
        exact absurd (Text.head_of_stopsAt isBare '/' _ hstop) (by decide)
    · rw [hrest] at hsplit
      simpa using hsplit

/-- A pair that leads to a semicolon is a pair of the grammar. -/
theorem pairText_of_readPair (s : List Char) (name raw : String) (rest : List Char)
    (h : readPair s = .ok (name, raw, ';' :: rest)) :
    ∃ pair, PairText name raw pair ∧ s = pair ++ rest := by
  unfold readPair at h
  split at h
  · cases h
  · rename_i ident afterIdent hident
    obtain ⟨hname, rfl⟩ := readIdent?_sound s ident afterIdent hident
    split at h
    · rename_i r hcolon
      obtain ⟨⟨before, hbefore, rfl⟩, _⟩ := trivia_of_afterTrivia afterIdent ':' r hcolon
      split at h
      · cases h
      · rename_i value behind hvalue
        simp only [Except.ok.injEq, Prod.mk.injEq] at h
        obtain ⟨rfl, rfl, hend⟩ := h
        cases hr : afterTrivia r with
        | nil =>
          rw [hr] at hvalue
          obtain ⟨rfl, rfl⟩ := Prod.mk.inj (Option.some.inj hvalue)
          rw [afterTrivia] at hend
          cases hend
        | cons q t =>
          rw [hr] at hvalue
          obtain ⟨⟨after, hafter, rfl⟩, hspace, hcomment⟩ := trivia_of_afterTrivia r q t hr
          obtain ⟨text, htext, heq⟩ :=
            valueText_of_readValue? q t value behind rest hspace hcomment hvalue hend
          refine ⟨_, .mk before after text hname hbefore hafter htext, ?_⟩
          rw [String.toList_ofList, heq]
          simp
    · cases h

/-! ### Heads and at-rules -/

/-- A head is over at its brace, and what is made of it depends on the text before that. -/
theorem head_of_readHead (s : List Char) (shown : String) (selector : Selector) (rest : List Char)
    (h : readHead s = .ok (shown, selector, rest)) :
    ∃ head, s = head ++ '{' :: rest ∧ '{' ∉ head ∧
      Selector.parse? (Text.trim (blankComments head)) = some selector ∧
      ∀ y, readHead (head ++ '{' :: y) = .ok (shown, selector, y) := by
  rw [readHead_eq] at h
  cases hdrop : s.dropWhile (· != '{') with
  | nil =>
    rw [hdrop] at h
    cases h
  | cons c body =>
    obtain ⟨hs, hc⟩ := Text.eq_of_dropWhile_eq_cons _ s body c hdrop
    obtain rfl : c = '{' := by simpa using hc
    have hin := Text.all_of_mem_takeWhile (· != '{') s
    rw [hdrop] at h
    simp only [headOf] at h
    split at h
    · rename_i selector' hselector
      simp only [Except.ok.injEq, Prod.mk.injEq] at h
      obtain ⟨rfl, rfl, rfl⟩ := h
      refine ⟨s.takeWhile (· != '{'), hs, ?_, hselector, fun y => ?_⟩
      · intro hmem
        exact absurd (hin '{' hmem) (by decide)
      · have hstop : Text.StopsAt (· != '{') ('{' :: y) := Text.stopsAt_cons _ '{' y (by decide)
        rw [readHead_eq, Text.takeWhile_append_stop _ _ _ hin hstop,
          Text.dropWhile_append_stop _ _ _ hin hstop]
        simp only [headOf, hselector]
    · cases h

/-- A head begins with a character of a compound, unless with a blank that is no white space
between tokens. -/
theorem front_of_readHead (c : Char) (r : List Char) (read : String × Selector × List Char)
    (hcomment : ∀ r', c = '/' → r = '*' :: r' → False) (h : readHead (c :: r) = .ok read) :
    Text.isBlank c = true ∨ isCompoundChar c = true := by
  obtain ⟨shown, selector, rest⟩ := read
  obtain ⟨head, hhead, hfree, hselector, _⟩ := head_of_readHead _ shown selector rest h
  obtain ⟨hne, hall, hwords⟩ := (parse?_eq_some _ selector).mp hselector
  rw [Text.words_trim] at hne hwords
  cases head with
  | nil =>
    rw [blankComments_nil] at hne
    exact absurd rfl hne
  | cons d head =>
    obtain ⟨rfl, rfl⟩ := List.cons.inj hhead
    have hblanked : blankComments (c :: head) = c :: blankComments head := by
      refine blankComments_cons fun r' hc hr => hcomment (r' ++ '{' :: rest) hc ?_
      rw [hr]
      rfl
    rw [hblanked] at hwords
    rcases Text.mem_splitOn Text.isBlank _ c List.mem_cons_self with hblank | ⟨word, hword, hmem⟩
    · exact Or.inl hblank
    · right
      have hin : word ∈ Text.words (c :: blankComments head) :=
        List.mem_filter.mpr ⟨hword, by simpa using List.ne_nil_of_mem hmem⟩
      rw [← hwords] at hin
      obtain ⟨compound, hcompound, rfl⟩ := List.mem_map.mp hin
      exact (hall compound hcompound).chars compound c hmem

theorem afterBlock_local (depth : Nat) (s : List Char) (c : Char) (rest : List Char)
    (h : afterBlock depth s = c :: rest) :
    ∃ u, s = u ++ c :: rest ∧ ∀ y, afterBlock depth (u ++ y) = y := by
  fun_induction afterBlock depth s with
  | case1 => cases h
  | case2 depth r ih =>
    obtain ⟨u, rfl, hu⟩ := ih h
    refine ⟨'{' :: u, rfl, fun y => ?_⟩
    rw [List.cons_append, afterBlock, if_pos rfl, hu]
  | case3 depth r hdepth hne =>
    refine ⟨['}'], by rw [h]; rfl, fun y => ?_⟩
    rw [List.singleton_append, afterBlock, if_neg (by decide), if_pos rfl, if_pos hdepth]
  | case4 depth r hdepth hne ih =>
    obtain ⟨u, rfl, hu⟩ := ih h
    refine ⟨'}' :: u, rfl, fun y => ?_⟩
    rw [List.cons_append, afterBlock, if_neg (by decide), if_pos rfl, if_neg hdepth, hu]
  | case5 depth d r hopen hclose ih =>
    obtain ⟨u, rfl, hu⟩ := ih h
    refine ⟨d :: u, rfl, fun y => ?_⟩
    rw [List.cons_append, afterBlock, if_neg hopen, if_neg hclose, hu]

/-- An at-rule that leaves something is over there, whatever follows. -/
theorem afterAtRule_local (r : List Char) (c : Char) (rest : List Char)
    (h : afterAtRule ('@' :: r) = c :: rest) :
    ∃ u, r = u ++ c :: rest ∧ ∀ y, afterAtRule ('@' :: (u ++ y)) = y := by
  simp only [afterAtRule] at h
  split at h
  · rename_i behind hdrop
    obtain rfl := h
    obtain ⟨hr, _⟩ := Text.eq_of_dropWhile_eq_cons _ r _ ';' hdrop
    have hsplit : r = (r.takeWhile (fun c => c != ';' && c != '{') ++ [';']) ++ c :: rest := by
      simpa using hr
    refine ⟨_, hsplit, fun y => ?_⟩
    have hstop : Text.StopsAt (fun c => c != ';' && c != '{') (';' :: y) :=
      Text.stopsAt_cons _ ';' y (by decide)
    have hdropped := Text.dropWhile_append_stop _ _ _
      (Text.all_of_mem_takeWhile (fun c => c != ';' && c != '{') r) hstop
    rw [List.append_assoc, List.singleton_append]
    simp only [afterAtRule, hdropped]
  · rename_i hne
    have hstops := Text.stopsAt_dropWhile (fun c => c != ';' && c != '{') r
    have hr := (List.takeWhile_append_dropWhile (p := fun c => c != ';' && c != '{')
      (l := r)).symm
    obtain ⟨u, hu, hlocal⟩ := afterBlock_local 0 _ c rest h
    cases u with
    | nil => exact absurd (hlocal ['{']) (List.cons_ne_nil _ _).symm
    | cons d u =>
      rw [hu] at hr hstops
      refine ⟨r.takeWhile (fun c => c != ';' && c != '{') ++ d :: u, by simpa using hr,
        fun y => ?_⟩
      have hstop : Text.StopsAt (fun c => c != ';' && c != '{') (d :: (u ++ y)) :=
        Text.stopsAt_cons _ d _ (Text.head_of_stopsAt _ d _ hstops)
      have hdropped := Text.dropWhile_append_stop _ _ _
        (Text.all_of_mem_takeWhile (fun c => c != ';' && c != '{') r) hstop
      have hsemicolon : d ≠ ';' := by
        rintro rfl
        exact hne _ hu
      rw [List.append_assoc]
      simp only [afterAtRule, List.cons_append, hdropped]
      split
      · rename_i heq
        exact absurd (List.cons.inj heq).1 hsemicolon
      · exact hlocal y

/-! ### Looking ahead -/

/-- Behind a text with a brace, a colon or brace that is met in front of the one text is met in
front of the other too. -/
def ShowsNoMore (y x : List Char) : Prop :=
  ∀ t d, '{' ∈ t → d = ':' ∨ d = '{' →
    (afterTrivia (t ++ y)).head? = some d → (afterTrivia (t ++ x)).head? = some d

section Ahead

variable {x y : List Char}

theorem startsVariable_append (s x : List Char) (hs : '{' ∈ s) :
    startsVariable (s ++ x) =
      (!(Text.nameRun s).isEmpty && (afterTrivia (Text.afterName s ++ x)).head? == some ':') := by
  have hne : s.dropWhile Text.isNameChar ≠ [] := by
    intro hnil
    exact absurd (List.dropWhile_eq_nil_iff.mp hnil '{' hs) (by decide)
  obtain ⟨c, rest, hdrop⟩ := List.exists_cons_of_ne_nil hne
  obtain ⟨htake, hleft⟩ := Text.span_append Text.isNameChar s x rest c hdrop
  have hrun : Text.nameRun (s ++ x) = Text.nameRun s := htake
  have hafter : Text.afterName (s ++ x) = Text.afterName s ++ x := by
    rw [Text.afterName, Text.afterName, hleft, hdrop]
    rfl
  rw [startsVariable, readIdent?, hrun, hafter]
  cases (Text.nameRun s).isEmpty with
  | true => rfl
  | false => rfl

theorem brace_mem_afterName {s : List Char} (hs : '{' ∈ s) : '{' ∈ Text.afterName s := by
  rw [← Text.nameRun_append_afterName s] at hs
  rcases List.mem_append.mp hs with hs | hs
  · exact absurd (Text.all_of_mem_takeWhile Text.isNameChar s '{' hs) (by decide)
  · exact hs

theorem ShowsNoMore.startsVariable (h : ShowsNoMore y x) {s : List Char} (hs : '{' ∈ s)
    (hx : startsVariable (s ++ x) = false) : startsVariable (s ++ y) = false := by
  rw [startsVariable_append s _ hs, Bool.and_eq_false_iff] at hx ⊢
  refine hx.imp_right fun hcolon => ?_
  rw [beq_eq_false_iff_ne] at hcolon ⊢
  exact fun hy => hcolon (h _ ':' (brace_mem_afterName hs) (Or.inl rfl) hy)

theorem ShowsNoMore.openScope? (h : ShowsNoMore y x) {s : List Char} (hs : '{' ∈ s)
    (hx : openScope? (s ++ x) = none) : openScope? (s ++ y) = none := by
  cases hy : Style.openScope? (s ++ y) with
  | none => rfl
  | some body =>
    exfalso
    obtain ⟨after, hword, hbrace⟩ := block_of_openScope? _ _ hy
    rcases List.append_eq_append_iff.mp hword with ⟨t, hshort, _⟩ | ⟨t, rfl, rfl⟩
    · have hmem : '{' ∈ scopeWord := hshort ▸ List.mem_append_left t hs
      exact absurd hmem (by decide)
    · have ht : '{' ∈ t := by
        rcases List.mem_append.mp hs with hs | hs
        · exact absurd hs (by decide)
        · exact hs
      have hmet := h t '{' ht (Or.inr rfl) (by rw [hbrace]; rfl)
      obtain ⟨body', hbody⟩ := List.head?_eq_some_iff.mp hmet
      have hlead := (Text.dropLead?_eq_some scopeWord (scopeWord ++ t ++ x) (t ++ x)).mpr
        (List.append_assoc _ _ _)
      rw [scopeWord] at hlead hx
      rw [Style.openScope?, hlead] at hx
      simp only [hbody, Text.dropLead?] at hx
      cases hx

end Ahead

/-! ### Steps -/

section Steps

variable {x y : List Char}

/-- A head is read up to its brace whatever follows. -/
theorem stepHead_local (inScope : Bool) (c : Char) (r rest : List Char) (ms : List Mark)
    (p : Place) (hcomment : ∀ r', c = '/' → r = '*' :: r' → False)
    (h : stepHead inScope (c :: r) = .go ms p rest) :
    ∃ u, r = u ++ rest ∧ '{' ∈ u ∧ (Text.isBlank c = true ∨ isCompoundChar c = true) ∧
      ∀ y, stepHead inScope (c :: (u ++ y)) = .go ms p y := by
  simp only [stepHead] at h
  split at h
  · cases h
  · rename_i shown selector rest' hread
    cases h
    have hfront := front_of_readHead c r _ hcomment hread
    obtain ⟨head, hhead, _, _, hlocal⟩ := head_of_readHead _ shown selector rest hread
    cases head with
    | nil =>
      obtain ⟨rfl, _⟩ := List.cons.inj hhead
      rcases hfront with h | h
      · exact absurd h (by decide)
      · exact absurd h (by decide)
    | cons d head =>
      obtain ⟨rfl, rfl⟩ := List.cons.inj hhead
      refine ⟨head ++ ['{'], by simp, by simp, hfront, fun y => ?_⟩
      have hagain := hlocal y
      simp only [List.cons_append, List.append_assoc, List.nil_append] at hagain ⊢
      simp only [stepHead, hagain]

theorem ne_of_front {c d : Char} (h : Text.isBlank c = true ∨ isCompoundChar c = true)
    (hd : (Text.isBlank d || isCompoundChar d) = false) : c ≠ d := by
  rintro rfl
  rw [Bool.or_eq_false_iff] at hd
  rcases h with h | h
  · rw [h] at hd
    cases hd.1
  · rw [h] at hd
    cases hd.2

theorem stepTop_local (hshows : ShowsNoMore y x) (hx : x ≠ []) (c : Char) (r w : List Char)
    (ms : List Mark) (p : Place) (hcomment : ∀ r', c = '/' → r = '*' :: r' → False)
    (h : stepTop (c :: r) = .go ms p (w ++ x)) :
    ∃ u, r = u ++ (w ++ x) ∧ c ≠ '/' ∧ stepTop (c :: (u ++ (w ++ y))) = .go ms p (w ++ y) := by
  simp only [stepTop] at h
  split at h
  · rename_i rest hopen
    cases h
    obtain ⟨after, hword, hbrace⟩ := block_of_openScope? _ _ hopen
    obtain ⟨⟨gap, hgap, rfl⟩, _⟩ := trivia_of_afterTrivia after '{' _ hbrace
    obtain ⟨rfl, rfl⟩ := List.cons.inj hword
    have hagain := openScope?_of_block gap (w ++ y) hgap
    refine ⟨['c', 'o', 'p', 'e'] ++ (gap ++ ['{']), by simp, by decide, ?_⟩
    simp only [scopeWord, List.cons_append, List.nil_append, List.append_assoc] at hagain ⊢
    simp only [stepTop, hagain]
  · rename_i hopen
    split at h
    · rename_i hat
      simp only [Step.go.injEq] at h
      obtain ⟨rfl, rfl, hrest⟩ := h
      obtain ⟨d, rest, hcons⟩ :=
        List.exists_cons_of_ne_nil (List.append_ne_nil_of_right_ne_nil w hx)
      rw [hcons] at hrest
      obtain ⟨u, rfl, hlocal⟩ := afterAtRule_local r d rest hrest
      have hnone : openScope? (c :: (u ++ (w ++ y))) = none := by
        cases hsome : openScope? (c :: (u ++ (w ++ y))) with
        | none => rfl
        | some body =>
          obtain ⟨_, hword, _⟩ := block_of_openScope? _ _ hsome
          rw [hat] at hword
          exact absurd (List.cons.inj hword).1 (by decide)
      refine ⟨u, by rw [hcons], by rw [hat]; decide, ?_⟩
      simp only [stepTop, hnone, if_pos hat, hlocal]
    · rename_i hat
      obtain ⟨u, rfl, hbrace, hfront, hlocal⟩ := stepHead_local false c r _ ms p hcomment h
      have hnone := hshows.openScope? (s := c :: (u ++ w)) (by simp [hbrace])
        (by simpa using hopen)
      rw [List.cons_append, List.append_assoc] at hnone
      refine ⟨u, rfl, ne_of_front hfront (by decide), ?_⟩
      simp only [stepTop, hnone, if_neg hat, hlocal]

/-- A pair and its semicolon are read whatever follows. -/
theorem stepPair_local (c : Char) (r rest : List Char) (name raw : String)
    (hread : readPair (c :: r) = .ok (name, raw, ';' :: rest)) :
    ∃ u, r = u ++ rest ∧ isCompoundChar c = true ∧
      ∀ y, readPair (c :: (u ++ y)) = .ok (name, raw, ';' :: y) ∧
        startsVariable (c :: (u ++ y)) = true := by
  obtain ⟨pair, hpair, heq⟩ := pairText_of_readPair _ name raw rest hread
  obtain ⟨d, u, rfl, hd⟩ := hpair.front
  obtain ⟨rfl, rfl⟩ := List.cons.inj heq
  exact ⟨u, rfl, hd, fun y => ⟨readPair_of_pairText name raw _ y hpair,
    startsVariable_of_pairText name raw _ y hpair⟩⟩

theorem stepScope_local (hshows : ShowsNoMore y x) (c : Char) (r w : List Char)
    (ms : List Mark) (p : Place) (hcomment : ∀ r', c = '/' → r = '*' :: r' → False)
    (h : stepScope (c :: r) = .go ms p (w ++ x)) :
    ∃ u, r = u ++ (w ++ x) ∧ c ≠ '/' ∧ stepScope (c :: (u ++ (w ++ y))) = .go ms p (w ++ y) := by
  simp only [stepScope] at h
  split at h
  · rename_i hclose
    simp only [Step.go.injEq] at h
    obtain ⟨rfl, rfl, rfl⟩ := h
    refine ⟨[], rfl, by rw [hclose]; decide, ?_⟩
    simp only [stepScope, if_pos hclose, List.nil_append]
  · rename_i hclose
    split at h
    · split at h
      · cases h
      · rename_i name raw rest hread
        split at h
        · simp only [Step.go.injEq] at h
          obtain ⟨rfl, rfl, rfl⟩ := h
          obtain ⟨u, rfl, hc, hlocal⟩ := stepPair_local c r _ name raw hread
          obtain ⟨hagain, hvariable⟩ := hlocal (w ++ y)
          refine ⟨u, rfl, ne_of_compoundChar c '/' hc (by decide), ?_⟩
          simp only [stepScope, if_neg hclose, hvariable, if_true, hagain]
        · cases h
    · rename_i hvariable
      obtain ⟨u, rfl, hbrace, hfront, hlocal⟩ := stepHead_local true c r _ ms p hcomment h
      have hnone := hshows.startsVariable (s := c :: (u ++ w)) (by simp [hbrace])
        (by simpa using hvariable)
      rw [List.cons_append, List.append_assoc] at hnone
      refine ⟨u, rfl, ne_of_front hfront (by decide), ?_⟩
      simp only [stepScope, if_neg hclose, hnone, Bool.false_eq_true, if_false, hlocal]

theorem stepRule_local (inScope : Bool) (c : Char) (r w : List Char)
    (ms : List Mark) (p : Place) (h : stepRule inScope (c :: r) = .go ms p (w ++ x)) :
    ∃ u, r = u ++ (w ++ x) ∧ c ≠ '/' ∧
      stepRule inScope (c :: (u ++ (w ++ y))) = .go ms p (w ++ y) := by
  simp only [stepRule] at h
  split at h
  · rename_i hclose
    simp only [Step.go.injEq] at h
    obtain ⟨rfl, rfl, rfl⟩ := h
    refine ⟨[], rfl, by rw [hclose]; decide, ?_⟩
    simp only [stepRule, if_pos hclose, List.nil_append]
  · rename_i hclose
    split at h
    · cases h
    · rename_i name raw rest hread
      split at h
      · simp only [Step.go.injEq] at h
        obtain ⟨rfl, rfl, rfl⟩ := h
        obtain ⟨u, rfl, hc, hlocal⟩ := stepPair_local c r _ name raw hread
        refine ⟨u, rfl, ne_of_compoundChar c '/' hc (by decide), ?_⟩
        simp only [stepRule, if_neg hclose, (hlocal (w ++ y)).1]
      · cases h

/-- A step reads the same in front of a text that shows no more. -/
theorem step_local (hshows : ShowsNoMore y x) (hx : x ≠ []) (p p' : Place) (s w : List Char)
    (ms : List Mark) (h : step p s = .go ms p' (w ++ x)) :
    ∃ u, s = u ++ (w ++ x) ∧ step p (u ++ (w ++ y)) = .go ms p' (w ++ y) := by
  cases hs : afterTrivia s with
  | nil =>
    cases p <;> simp only [step, hs] at h <;> cases h
  | cons c r =>
    obtain ⟨⟨gap, hgap, rfl⟩, hspace, hcomment⟩ := trivia_of_afterTrivia s c r hs
    have hread : ∃ u, r = u ++ (w ++ x) ∧ c ≠ '/' ∧
        ∀ s', afterTrivia s' = c :: (u ++ (w ++ y)) → step p s' = .go ms p' (w ++ y) := by
      cases p with
      | top =>
        simp only [step, hs] at h
        obtain ⟨u, hr, hc, hstep⟩ := stepTop_local hshows hx c r w ms p' hcomment h
        exact ⟨u, hr, hc, fun s' hs' => by rw [step, hs']; exact hstep⟩
      | scope =>
        simp only [step, hs] at h
        obtain ⟨u, hr, hc, hstep⟩ := stepScope_local hshows c r w ms p' hcomment h
        exact ⟨u, hr, hc, fun s' hs' => by rw [step, hs']; exact hstep⟩
      | rule inScope =>
        simp only [step, hs] at h
        obtain ⟨u, hr, hc, hstep⟩ := stepRule_local (y := y) inScope c r w ms p' h
        exact ⟨u, hr, hc, fun s' hs' => by rw [step, hs']; exact hstep⟩
    obtain ⟨u, rfl, hc, hstep⟩ := hread
    refine ⟨gap ++ c :: u, by simp, hstep _ ?_⟩
    rw [List.append_assoc]
    exact afterTrivia_append_token gap _ c hgap hspace hc

end Steps

/-! ### Runs of steps -/

/-- The reader comes from one place and text to another, with some marks on the way. -/
inductive Reads : Place → List Char → List Mark → Place → List Char → Prop
  | nil (p : Place) (s : List Char) : Reads p s [] p s
  | step (p p' p'' : Place) (s rest rest' : List Char) (ms more : List Mark) :
      step p s = .go ms p' rest → Reads p' rest more p'' rest' →
      Reads p s (ms ++ more) p'' rest'

theorem Reads.readFrom_eq {p p' : Place} {s rest : List Char} {ms : List Mark}
    (h : Reads p s ms p' rest) : readFrom p s = (readFrom p' rest).after ms := by
  induction h with
  | nil p s => rfl
  | step p p' p'' s rest rest' ms more hstep _ ih =>
    rw [readFrom_of_go p p' s rest ms hstep, ih, Reading.after_after]

/-- What has been read up to a text is read up to another that shows no more. -/
theorem Reads.local {p p' : Place} {s x y : List Char} {ms : List Mark}
    (h : Reads p s ms p' x) (hshows : ShowsNoMore y x) (hx : x ≠ []) :
    ∃ u, s = u ++ x ∧ Reads p (u ++ y) ms p' y := by
  induction h with
  | nil p s => exact ⟨[], rfl, .nil p y⟩
  | step p p' p'' s rest rest' ms more hstep _ ih =>
    obtain ⟨w, rfl, hmore⟩ := ih hshows hx
    obtain ⟨u, rfl, hstep'⟩ := step_local hshows hx p p' s w ms hstep
    refine ⟨u ++ w, (List.append_assoc _ _ _).symm, ?_⟩
    rw [List.append_assoc]
    exact .step p p' p'' _ _ _ ms more hstep' hmore

end FrameUI.Style
