import FrameUI.Proofs.Markup.Completeness

/-!
# What is read is in the grammar

A text whose reading does not fail is a text of the grammar. The parts of a tag are taken
apart first; the induction is on the length of the text, as every step consumes something.
Main statements: `childrenSound` for the content of an open element and
`elementText_of_enter` for an element after its `<`.
-/

namespace FrameUI.Markup

/-! ### Attributes and opening tags -/

theorem pair_of_readAttribute (s rest : List Char) (name raw : String)
    (h : readAttribute s = .ok (name, raw, rest)) :
    ∃ n value q, s = n ++ '=' :: q :: (value ++ q :: rest) ∧
      Text.LongestName n ('=' :: q :: (value ++ q :: rest)) ∧ IsQuote q ∧ q ∉ value ∧
      name = String.ofList n ∧ raw = String.ofList value := by
  unfold readAttribute at h
  split at h
  · cases h
  · rename_i hn
    have hname := Text.longestName_nameRun s (by simpa using hn)
    have hs := Text.nameRun_append_afterName s
    split at h
    · rename_i r hr
      rw [hr] at hname hs
      split at h
      · rename_i q v
        split at h
        · rename_i hq
          split at h
          · rename_i d rest' hd
            obtain ⟨hv, hdq⟩ := Text.eq_of_dropWhile_eq_cons (· != q) v rest' d hd
            have hdq' : d = q := by simpa using hdq
            subst hdq'
            simp only [Except.ok.injEq, Prod.mk.injEq] at h
            obtain ⟨h1, h2, rfl⟩ := h
            have hmem : d ∉ v.takeWhile (· != d) := by
              intro hm
              have := Text.all_of_mem_takeWhile (· != d) v d hm
              simp at this
            rw [hv] at hname hs
            exact ⟨Text.nameRun s, v.takeWhile (· != d), d, hs.symm, hname, hq, hmem,
              h1.symm, h2.symm⟩
          · cases h
        · cases h
      · cases h
    · cases h

/-- The characters that end an opening tag, with or without a slash. -/
def endMark (closed : Bool) : List Char := if closed then ['/', '>'] else ['>']

theorem eq_of_tagEnd (s rest : List Char) (closed : Bool)
    (h : tagEnd s = .ok (closed, rest)) : s = endMark closed ++ rest := by
  unfold tagEnd at h
  split at h
  · simp only [Except.ok.injEq, Prod.mk.injEq] at h
    obtain ⟨rfl, rfl⟩ := h
    rfl
  · simp only [Except.ok.injEq, Prod.mk.injEq] at h
    obtain ⟨rfl, rfl⟩ := h
    rfl
  · cases h

theorem text_of_readAttributes (s rest : List Char) (closed : Bool)
    (h : (readAttributes s).ending = .ok (closed, rest)) :
    ∃ blanks attributes pairs, s = blanks ++ (attributes ++ (endMark closed ++ rest)) ∧
      Text.AllBlank blanks ∧ AttributesText attributes pairs := by
  obtain ⟨blanks, hb, hs⟩ := Text.exists_blanks_trimStart s
  rw [readAttributes] at h
  split at h
  · have ht := eq_of_tagEnd _ _ _ h
    refine ⟨blanks, [], [], ?_, hb, .nil⟩
    rw [List.nil_append, ← ht]
    exact hs
  · split at h
    · cases h
    · rename_i name raw rest' hr
      have hlt := readAttribute_rest_lt _ _ _ _ hr
      have hle := Text.trimStart_length_le s
      obtain ⟨n, value, q, ht, hn, hq, hv, _, _⟩ := pair_of_readAttribute _ _ _ _ hr
      obtain ⟨blanks', attributes, pairs, hrest, hb', ha⟩ :=
        text_of_readAttributes rest' rest closed h
      refine ⟨blanks, n ++ '=' :: q :: (value ++ q :: (blanks' ++ attributes)), _, ?_, hb,
        .cons n value blanks' attributes q pairs ?_ hq hv hb' ha⟩
      · rw [hs, ht, hrest]
        simp
      · exact hn.before _ (Text.stopsAt_cons _ _ _ (by decide))
termination_by s.length
decreasing_by omega

theorem text_of_readOpening (s rest : List Char) (closed : Bool)
    (h : (readOpening s).ending = .ok (closed, rest)) :
    ∃ name blanks attributes pairs,
      s = name ++ (blanks ++ (attributes ++ (endMark closed ++ rest))) ∧
      Text.nameRun s = name ∧
      Text.LongestName name (blanks ++ (attributes ++ (endMark closed ++ rest))) ∧
      Text.AllBlank blanks ∧ AttributesText attributes pairs := by
  unfold readOpening at h
  split at h
  · cases h
  · rename_i hn
    have hname := Text.longestName_nameRun s (by simpa using hn)
    obtain ⟨blanks, attributes, pairs, hs, hb, ha⟩ := text_of_readAttributes _ _ _ h
    rw [hs] at hname
    refine ⟨Text.nameRun s, blanks, attributes, pairs, ?_, rfl, hname, hb, ha⟩
    rw [← hs]
    exact (Text.nameRun_append_afterName s).symm

/-! ### Content -/

/-- A comment either has an end or runs to the end of the text. -/
theorem body_of_afterComment (s : List Char) :
    (∃ body, Text.occursIn commentEnd body = false ∧
      s = body ++ commentEnd ++ afterComment s) ∨
      Text.occursIn commentEnd s = false ∧ afterComment s = [] := by
  fun_induction afterComment s with
  | case1 r => exact Or.inl ⟨[], rfl, rfl⟩
  | case2 c r hne ih =>
    rcases ih with ⟨body, hbody, hr⟩ | ⟨hnone, hnil⟩
    · refine Or.inl ⟨c :: body, ?_, by rw [List.cons_append, List.cons_append, ← hr]⟩
      simp only [Text.occursIn, hbody, Bool.or_false]
      -- an end mark at the front of the body would have ended the comment there
      cases hp : commentEnd.isPrefixOf (c :: body) with
      | false => rfl
      | true =>
        obtain ⟨t, ht⟩ := List.isPrefixOf_iff_prefix.mp hp
        have hcr : c :: r = commentEnd ++ (t ++ commentEnd ++ afterComment r) :=
          calc c :: r = c :: (body ++ commentEnd ++ afterComment r) := congrArg _ hr
            _ = commentEnd ++ t ++ commentEnd ++ afterComment r := by rw [ht]; simp
            _ = commentEnd ++ (t ++ commentEnd ++ afterComment r) := by simp
        have hfront := List.cons.inj hcr
        exact (hne _ hfront.1 hfront.2).elim
    · refine Or.inr ⟨?_, hnil⟩
      simp only [Text.occursIn, hnone, Bool.or_false]
      cases hp : commentEnd.isPrefixOf (c :: r) with
      | false => rfl
      | true =>
        obtain ⟨t, ht⟩ := List.isPrefixOf_iff_prefix.mp hp
        have hfront := List.cons.inj ht.symm
        exact (hne _ hfront.1 hfront.2).elim
  | case3 => exact Or.inr ⟨rfl, rfl⟩

theorem text_of_piece_closing (s rest : List Char) (h : piece s = .closing rest) :
    s = '<' :: '/' :: rest := by
  unfold piece at h
  split at h <;> cases h
  rfl

theorem text_of_piece_comment (s rest : List Char) (h : piece s = .comment rest) :
    ∃ r, s = '<' :: '!' :: '-' :: '-' :: r ∧ rest = afterComment r := by
  unfold piece at h
  split at h <;> cases h
  exact ⟨_, rfl, rfl⟩

theorem text_of_piece_opening (s rest : List Char) (h : piece s = .opening rest) :
    s = '<' :: rest := by
  unfold piece at h
  split at h <;> cases h
  rfl

theorem text_of_piece_run (s raw rest : List Char) (h : piece s = .run raw rest)
    (hfront : Text.StopsAt Text.isBlank s) : s = raw ++ rest ∧ LongestRun raw rest := by
  unfold piece at h
  split at h
  · cases h
  · cases h
  · cases h
  · cases h
  · rename_i c r _ _ hc
    have hne : (c != '<') = true := by
      have : c ≠ '<' := hc
      simpa using this
    simp only [Piece.run.injEq] at h
    obtain ⟨hraw, hrest⟩ := h
    have hs : c :: r = raw ++ rest := by
      rw [← hraw, ← hrest]
      exact List.takeWhile_append_dropWhile.symm
    have hhead : ∃ t, raw = c :: t := by
      refine ⟨r.takeWhile (· != '<'), ?_⟩
      rw [← hraw]
      exact List.takeWhile_cons_of_pos hne
    obtain ⟨t, ht⟩ := hhead
    refine ⟨hs, ?_, ?_, ?_, ?_⟩
    · rw [ht]
      simp
    · rw [ht]
      exact Text.stopsAt_cons _ _ _ (Text.head_of_stopsAt _ c r hfront)
    · intro hm
      rw [← hraw] at hm
      have := Text.all_of_mem_takeWhile _ _ _ hm
      simp at this
    · rw [← hrest]
      exact Text.stopsAt_dropWhile _ _

theorem text_of_readClosing (tag : String) (s rest : List Char)
    (h : readClosing tag s = .ok rest) : s = tag.toList ++ '>' :: rest := by
  have hs := Text.nameRun_append_afterName s
  simp only [readClosing] at h
  split at h
  · rename_i htag
    split at h
    · rename_i r hr
      simp only [Except.ok.injEq] at h
      subst h
      rw [← htag, String.toList_ofList, ← hr, hs]
    · cases h
  · cases h

/-! ### Elements -/

/-- A text begins with content of an open element, of bounded depth, and its closing tag. -/
def ClosedContent (tag : String) (outer : List String) (s : List Char) : Prop :=
  ∃ inner nodes rest, s = inner ++ '<' :: '/' :: (tag.toList ++ '>' :: rest) ∧
    ChildrenText inner nodes ∧ outer.length + 1 + Node.depthAll nodes ≤ maxDepth

/-- Texts up to a length that are read inside an element to the end of the document without
failure begin with content of the element and its closing tag. -/
def ChildrenSound (n : Nat) : Prop :=
  ∀ (s : List Char) (tag : String) (outer : List String), s.length ≤ n →
    outer.length + 1 ≤ maxDepth → (readFrom (.inside tag outer) s).failure = none →
    ClosedContent tag outer s

theorem elementText_of_enter (n : Nat) (hn : ChildrenSound n) (around : List String)
    (s : List Char) (hs : s.length ≤ n + 1) (hdepth : around.length + 1 ≤ maxDepth)
    (h : (enter around s).reading.failure = none) :
    ∃ text e rest, s = text ++ rest ∧ ElementText ('<' :: text) e ∧
      around.length + e.depth ≤ maxDepth := by
  simp only [enter] at h
  split at h
  · cases h
  · rename_i rest hend
    obtain ⟨name, blanks, attributes, pairs, heq, _, hname, hb, ha⟩ :=
      text_of_readOpening s rest true hend
    have htext : blanks ++ (attributes ++ (endMark true ++ rest)) =
        (blanks ++ attributes ++ ['/', '>']) ++ rest := by simp [endMark]
    rw [htext] at hname heq
    refine ⟨_, _, rest, ?_, .empty name blanks attributes pairs
      (hname.before _ hname.longest.of_append) hb ha, ?_⟩
    · rw [heq]
      exact (List.append_assoc _ _ _).symm
    · rw [depth_element]
      exact hdepth
  · rename_i rest hend
    have hlt := readOpening_rest_lt s false rest hend
    obtain ⟨name, blanks, attributes, pairs, heq, hrun, hname, hb, ha⟩ :=
      text_of_readOpening s rest false hend
    rw [Step.reading, Reading.failure_after] at h
    obtain ⟨inner, nodes, rest', hrest, hinner, hdepth'⟩ :=
      hn rest _ around (by omega) hdepth h
    rw [hrun, String.toList_ofList] at hrest
    have htext : blanks ++ (attributes ++ (endMark false ++ rest)) =
        (blanks ++ attributes ++ '>' :: (inner ++ '<' :: '/' :: (name ++ ['>']))) ++ rest' := by
      rw [hrest]
      simp [endMark]
    rw [htext] at hname heq
    refine ⟨_, _, rest', ?_, .full name blanks attributes inner pairs nodes
      (hname.before _ hname.longest.of_append) hb ha hinner, ?_⟩
    · rw [heq]
      exact (List.append_assoc _ _ _).symm
    · rw [depth_element]
      omega

theorem readFrom_inside_nil (tag : String) (outer : List String) :
    (readFrom (.inside tag outer) []).failure ≠ none := by
  rw [readFrom_eq_reading]
  intro h
  cases h

/-- Blanks in front of content are content. -/
theorem ChildrenText.blanks_append {blanks s : List Char} {nodes : List Node}
    (hb : Text.AllBlank blanks) (h : ChildrenText s nodes) :
    ChildrenText (blanks ++ s) nodes := by
  induction blanks with
  | nil => exact h
  | cons c blanks ih =>
    have hc := hb c List.mem_cons_self
    have hrest : Text.AllBlank blanks := fun d hd => hb d (List.mem_cons_of_mem _ hd)
    exact .blank c _ nodes hc (ih hrest)

section

variable {tag : String} {outer : List String}

theorem ClosedContent.blanks {blanks s : List Char} (hb : Text.AllBlank blanks)
    (h : ClosedContent tag outer s) : ClosedContent tag outer (blanks ++ s) := by
  obtain ⟨inner, nodes, rest, hs, hinner, hd⟩ := h
  refine ⟨blanks ++ inner, nodes, rest, ?_, hinner.blanks_append hb, hd⟩
  rw [hs, List.append_assoc]

theorem closedContent_of_readClosing {s rest : List Char} (hdepth : outer.length + 1 ≤ maxDepth)
    (h : readClosing tag s = .ok rest) : ClosedContent tag outer ('<' :: '/' :: s) := by
  have hs := text_of_readClosing tag s rest h
  refine ⟨[], [], rest, ?_, .nil, hdepth⟩
  rw [hs]
  rfl

theorem ClosedContent.comment {body s : List Char}
    (hbody : Text.occursIn commentEnd body = false) (h : ClosedContent tag outer s) :
    ClosedContent tag outer ('<' :: '!' :: '-' :: '-' :: (body ++ commentEnd ++ s)) := by
  obtain ⟨inner, nodes, rest, hs, hinner, hd⟩ := h
  refine ⟨_, nodes, rest, ?_, .comment body inner nodes hbody hinner, hd⟩
  rw [hs]
  simp

theorem ClosedContent.element {text s : List Char} {e : Element}
    (he : ElementText ('<' :: text) e) (hdepth : outer.length + 1 + e.depth ≤ maxDepth)
    (h : ClosedContent tag outer s) : ClosedContent tag outer ('<' :: (text ++ s)) := by
  obtain ⟨inner, nodes, rest, hs, hinner, hd⟩ := h
  refine ⟨_, _, rest, ?_, .element _ inner e nodes he hinner, ?_⟩
  · rw [hs]
    simp
  · rw [depthAll_cons, Node.depth]
    omega

theorem ClosedContent.run {raw s : List Char} (hrun : LongestRun raw s)
    (h : ClosedContent tag outer s) : ClosedContent tag outer (raw ++ s) := by
  obtain ⟨inner, nodes, rest, hs, hinner, hd⟩ := h
  rw [hs] at hrun
  refine ⟨_, _, rest, ?_, .run raw inner nodes
    ⟨hrun.nonempty, hrun.front, hrun.plain, hrun.longest.of_append⟩ hinner, ?_⟩
  · rw [hs, List.append_assoc]
  · rw [depthAll_cons, Node.depth]
    omega

end

/-- The induction step: the first piece is content, and so is what follows it. -/
theorem childrenSound_succ (n : Nat) (hn : ChildrenSound n) : ChildrenSound (n + 1) := by
  intro s tag outer hs hdepth h
  obtain ⟨blanks, hb, heq⟩ := Text.exists_blanks_trimStart s
  have hfront : Text.StopsAt Text.isBlank (Text.trimStart s) := Text.stopsAt_dropWhile _ s
  have hle := Text.trimStart_length_le s
  rw [heq]
  refine ClosedContent.blanks hb ?_
  rw [readFrom_eq_reading, step_inside] at h
  generalize Text.trimStart s = t at h hfront hle
  unfold stepInside at h
  split at h
  · cases h
  · rename_i r hp
    rw [text_of_piece_closing t r hp]
    split at h
    · cases h
    · rename_i rest hc
      exact closedContent_of_readClosing hdepth hc
  · rename_i r hp
    obtain ⟨r', ht, rfl⟩ := text_of_piece_comment t r hp
    have hlt := piece_rest_lt t _ (Or.inr hp)
    rw [Step.reading, Reading.failure_after] at h
    rcases body_of_afterComment r' with ⟨body, hbody, hr'⟩ | ⟨_, hnil⟩
    · have hafter := hn (afterComment r') tag outer (by omega) hdepth h
      rw [ht, hr']
      exact hafter.comment hbody
    · rw [hnil] at h
      exact absurd h (readFrom_inside_nil tag outer)
  · rename_i r hp
    have hlt := piece_inner_lt t r (Or.inr hp)
    split at h
    · cases h
    · rename_i hmax
      obtain ⟨text, e, rest, hr, he, hd⟩ := elementText_of_enter n hn (tag :: outer) r
        (by omega) (by simp only [List.length_cons]; omega) h
      -- reading the element leaves the text after it, where the content goes on
      obtain ⟨events, _, hread⟩ := enter_of_elementText _ e he (tag :: outer) rest hd
      rw [hr, List.length_append] at hlt
      rw [hr] at h
      rw [List.tail_cons] at hread
      rw [hread] at h
      have hafter := hn rest tag outer (by omega) hdepth h
      rw [text_of_piece_opening t r hp, hr]
      exact hafter.element he hd
  · rename_i raw r hp
    obtain ⟨ht, hrun⟩ := text_of_piece_run t raw r hp hfront
    have hlt := piece_rest_lt t r (Or.inl ⟨raw, hp⟩)
    rw [Step.reading, Reading.failure_after] at h
    have hafter := hn r tag outer (by omega) hdepth h
    rw [ht]
    exact hafter.run hrun

theorem childrenSound (n : Nat) : ChildrenSound n := by
  induction n with
  | zero =>
    intro s tag outer hs _ h
    have hnil : s = [] := List.eq_nil_of_length_eq_zero (by omega)
    rw [hnil] at h
    exact absurd h (readFrom_inside_nil tag outer)
  | succ n ih => exact childrenSound_succ n ih

end FrameUI.Markup
