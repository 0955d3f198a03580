import FrameUI.Proofs.Markup.Assembling

/-!
# Reading what the grammar allows

Every text of the grammar is read to its end, whatever follows it, and the events read make
up the tree that the text denotes. Main statements: `enter_of_elementText` for an element
after its `<`, and `readFrom_of_childrenText` for the content of an open element.
-/

namespace FrameUI.Markup

open Assembly

/-! ### Readings -/

/-- What is read from a step on. -/
def Step.reading : Step → Reading
  | .stop events failure => ⟨events, failure⟩
  | .go events place rest => (readFrom place rest).after events

theorem readFrom_eq_reading (p : Place) (s : List Char) :
    readFrom p s = (step p s).reading := by
  cases h : step p s with
  | stop events failure => exact readFrom_of_stop p s events failure h
  | go events place rest => exact readFrom_of_go p place s rest events h

@[simp] theorem Reading.after_nil (r : Reading) : r.after [] = r := rfl

@[simp] theorem Reading.after_after (r : Reading) (es fs : List Event) :
    (r.after es).after fs = r.after (fs ++ es) := by
  simp [Reading.after]

@[simp] theorem Reading.failure_after (r : Reading) (es : List Event) :
    (r.after es).failure = r.failure := rfl

theorem reading_leave (around : List String) (es : List Event) (tag : String)
    (rest : List Char) :
    (leave around es tag rest).reading = (leave around [] tag rest).reading.after es := by
  cases around with
  | nil =>
    by_cases h : tag = rootName
    · simp [leave, Step.reading, h]
    · simp [leave, Step.reading, Reading.after, h]
  | cons parent outer => simp [leave, Step.reading]

/-! ### Attributes and opening tags -/

theorem readAttribute_of_pair (name value rest : List Char) (q : Char)
    (hname : Text.LongestName name ('=' :: q :: (value ++ q :: rest))) (hq : IsQuote q)
    (hvalue : q ∉ value) :
    readAttribute (name ++ '=' :: q :: (value ++ q :: rest)) =
      .ok (String.ofList name, String.ofList value, rest) := by
  have hall : ∀ c ∈ value, (c != q) = true := by
    intro c hc
    have hne : c ≠ q := by
      intro heq
      subst heq
      exact hvalue hc
    simpa using hne
  have hstop : Text.StopsAt (· != q) (q :: rest) := Text.stopsAt_cons _ q rest (by simp)
  have hq' : q = Entity.quote ∨ q = Entity.apostrophe := hq
  have htake := Text.takeWhile_append_stop (· != q) value (q :: rest) hall hstop
  have hdrop := Text.dropWhile_append_stop (· != q) value (q :: rest) hall hstop
  unfold readAttribute
  rw [hname.nameRun_isEmpty, hname.nameRun_eq, hname.afterName_eq]
  simp only [Bool.false_eq_true, if_false, hq', if_true, hdrop, htake]

/-- What may stand after the attributes of an opening tag. -/
def EndsTag (s : List Char) : Prop := ∃ r, s = '/' :: '>' :: r ∨ s = '>' :: r

theorem EndsTag.stopsAt_blank {s : List Char} (h : EndsTag s) : Text.StopsAt Text.isBlank s := by
  obtain ⟨r, rfl | rfl⟩ := h
  · exact Text.stopsAt_cons _ _ _ (by decide)
  · exact Text.stopsAt_cons _ _ _ (by decide)

theorem EndsTag.atTagEnd {s : List Char} (h : EndsTag s) : atTagEnd s = true := by
  obtain ⟨r, rfl | rfl⟩ := h
  · rfl
  · rfl

theorem not_atTagEnd_of_nameChar (c : Char) (s : List Char) (h : Text.isNameChar c = true) :
    atTagEnd (c :: s) = false := by
  simp only [Markup.atTagEnd, Bool.or_eq_false_iff, beq_eq_false_iff_ne]
  constructor
  · intro heq
    subst heq
    exact absurd h (by decide)
  · intro heq
    subst heq
    exact absurd h (by decide)

theorem readAttributes_of_end (s : List Char) (h : atTagEnd (Text.trimStart s) = true) :
    readAttributes s = ⟨[], tagEnd (Text.trimStart s)⟩ := by
  rw [readAttributes, if_pos h]

theorem readAttributes_of_ok (s rest : List Char) (name raw : String)
    (hend : atTagEnd (Text.trimStart s) = false)
    (h : readAttribute (Text.trimStart s) = .ok (name, raw, rest)) :
    readAttributes s =
      ⟨.given name raw :: (readAttributes rest).events, (readAttributes rest).ending⟩ := by
  rw [readAttributes, if_neg (by simp [hend])]
  split
  · rename_i f hf
    rw [h] at hf
    cases hf
  · rename_i h'
    rw [h] at h'
    cases h'
    rfl

theorem readAttributes_of_text (s : List Char) (pairs : List (String × String))
    (h : AttributesText s pairs) (blanks tail : List Char) (hb : Text.AllBlank blanks)
    (ht : EndsTag tail) :
    readAttributes (blanks ++ (s ++ tail)) = ⟨givenEvents pairs, tagEnd tail⟩ := by
  induction h generalizing blanks with
  | nil =>
    have htrim : Text.trimStart (blanks ++ ([] ++ tail)) = tail := by
      rw [Text.trimStart_blanks_append _ _ hb, List.nil_append,
        Text.trimStart_of_stopsAt _ ht.stopsAt_blank]
    rw [readAttributes_of_end _ (by rw [htrim]; exact ht.atTagEnd), htrim]
    rfl
  | cons name value blanks' rest q pairs hname hq hvalue hb' _ ih =>
    have hassoc : name ++ '=' :: q :: (value ++ q :: (blanks' ++ rest)) ++ tail =
        name ++ '=' :: q :: (value ++ q :: (blanks' ++ (rest ++ tail))) := by simp
    have hname' := hname.before ('=' :: q :: (value ++ q :: (blanks' ++ (rest ++ tail))))
      (Text.stopsAt_cons _ _ _ (by decide))
    have htrim : Text.trimStart (blanks ++ (name ++ '=' :: q ::
        (value ++ q :: (blanks' ++ rest)) ++ tail)) =
        name ++ '=' :: q :: (value ++ q :: (blanks' ++ (rest ++ tail))) := by
      rw [Text.trimStart_blanks_append _ _ hb, hassoc,
        Text.trimStart_of_stopsAt _ (hname'.stopsAt_blank _)]
    have hend : atTagEnd (name ++ '=' :: q :: (value ++ q :: (blanks' ++ (rest ++ tail)))) =
        false := by
      cases hn : name with
      | nil => exact absurd hn hname.nonempty
      | cons c r => exact not_atTagEnd_of_nameChar c _ (hname.letters c (by simp [hn]))
    have hread := readAttribute_of_pair name value (blanks' ++ (rest ++ tail)) q hname' hq hvalue
    rw [readAttributes_of_ok _ _ _ _ (by rw [htrim]; exact hend) (by rw [htrim]; exact hread),
      ih blanks' hb']
    rfl

theorem readOpening_of_text (name blanks attributes tail : List Char)
    (pairs : List (String × String))
    (hname : Text.LongestName name (blanks ++ (attributes ++ tail)))
    (hb : Text.AllBlank blanks) (ha : AttributesText attributes pairs) (ht : EndsTag tail) :
    readOpening (name ++ (blanks ++ (attributes ++ tail))) =
      ⟨.opened (String.ofList name) :: givenEvents pairs, tagEnd tail⟩ := by
  unfold readOpening
  rw [hname.nameRun_isEmpty, hname.nameRun_eq, hname.afterName_eq,
    readAttributes_of_text attributes pairs ha blanks tail hb ht]
  rfl

/-! ### Content -/

theorem afterComment_of_body (body rest : List Char)
    (h : Text.occursIn commentEnd body = false) :
    afterComment (body ++ commentEnd ++ rest) = rest := by
  induction body with
  | nil => rfl
  | cons c body ih =>
    simp only [Text.occursIn, Bool.or_eq_false_iff] at h
    obtain ⟨hc, hbody⟩ := h
    -- the end mark cannot begin in the body and reach into the mark that follows it
    have hmark : ∀ r, c :: body ++ commentEnd ++ rest ≠ '-' :: '-' :: '>' :: r := by
      intro r he
      match body, hc with
      | [], _ => simp [commentEnd] at he
      | [d], _ => simp [commentEnd] at he
      | d :: f :: body, hc =>
        simp only [List.cons_append, List.cons.injEq] at he
        obtain ⟨rfl, rfl, rfl, _⟩ := he
        simp [commentEnd, List.isPrefixOf] at hc
    have hstep : afterComment (c :: (body ++ commentEnd ++ rest)) =
        afterComment (body ++ commentEnd ++ rest) := by
      rw [afterComment]
      intro r h1 h2
      apply hmark r
      rw [List.cons_append, List.cons_append, h2, h1]
    exact hstep.trans (ih hbody)

theorem step_inside (tag : String) (outer : List String) (s : List Char) :
    step (.inside tag outer) s = stepInside tag outer (Text.trimStart s) := rfl

theorem readFrom_inside_blank (tag : String) (outer : List String) (c : Char) (s : List Char)
    (h : Text.isBlank c = true) :
    readFrom (.inside tag outer) (c :: s) = readFrom (.inside tag outer) s := by
  rw [readFrom_eq_reading, readFrom_eq_reading, step_inside, step_inside,
    Text.trimStart_of_blank c s h]

theorem readFrom_inside_blanks (tag : String) (outer : List String) (blanks s : List Char)
    (h : Text.AllBlank blanks) :
    readFrom (.inside tag outer) (blanks ++ s) = readFrom (.inside tag outer) s := by
  induction blanks with
  | nil => rfl
  | cons c blanks ih =>
    rw [List.cons_append, readFrom_inside_blank tag outer c _ (h c List.mem_cons_self)]
    exact ih fun d hd => h d (List.mem_cons_of_mem c hd)

theorem trimStart_angle (s : List Char) : Text.trimStart ('<' :: s) = '<' :: s :=
  Text.trimStart_of_not_blank '<' s (by decide)

theorem readFrom_inside_comment (tag : String) (outer : List String) (body rest : List Char)
    (h : Text.occursIn commentEnd body = false) :
    readFrom (.inside tag outer) ('<' :: '!' :: '-' :: '-' :: (body ++ commentEnd ++ rest)) =
      readFrom (.inside tag outer) rest := by
  rw [readFrom_eq_reading, step_inside, trimStart_angle]
  simp only [stepInside, piece, afterComment_of_body body rest h, Step.reading,
    Reading.after_nil]

theorem piece_of_ne (c : Char) (r : List Char) (h : c ≠ '<') :
    piece (c :: r) =
      .run ((c :: r).takeWhile (· != '<')) ((c :: r).dropWhile (· != '<')) := by
  unfold piece
  split
  · rename_i heq
    cases heq
  · rename_i heq
    cases heq
    exact absurd rfl h
  · rename_i heq
    cases heq
    exact absurd rfl h
  · rename_i heq
    cases heq
    exact absurd rfl h
  · rename_i heq
    cases heq
    rfl

theorem piece_of_nameChar (c : Char) (r : List Char) (h : Text.isNameChar c = true) :
    piece ('<' :: c :: r) = .opening (c :: r) := by
  unfold piece
  split
  · rename_i heq
    cases heq
  · rename_i heq
    cases heq
    exact absurd h (by decide)
  · rename_i heq
    cases heq
    exact absurd h (by decide)
  · rename_i heq
    cases heq
    rfl
  · rename_i hne heq
    cases heq
    exact absurd rfl hne

/-- A run reaches to the next `<`, or to the end. -/
theorem readFrom_inside_run (tag : String) (outer : List String) (run rest : List Char)
    (h : LongestRun run rest) :
    readFrom (.inside tag outer) (run ++ rest) =
      (readFrom (.inside tag outer) rest).after [.run (String.ofList run)] := by
  cases hrun : run with
  | nil => exact absurd hrun h.nonempty
  | cons c r =>
    rw [hrun] at h
    have hc : c ≠ '<' := by
      intro heq
      subst heq
      exact h.plain List.mem_cons_self
    have hall : ∀ d ∈ c :: r, (d != '<') = true := by
      intro d hd
      have hne : d ≠ '<' := by
        intro heq
        subst heq
        exact h.plain hd
      simpa using hne
    have htrim : Text.trimStart (c :: (r ++ rest)) = c :: (r ++ rest) :=
      Text.trimStart_of_not_blank c _ (Text.head_of_stopsAt _ c r h.front)
    have hpiece : piece (c :: (r ++ rest)) = .run (c :: r) rest := by
      rw [piece_of_ne c _ hc]
      have htake := Text.takeWhile_append_stop (· != '<') (c :: r) rest hall h.longest
      have hdrop := Text.dropWhile_append_stop (· != '<') (c :: r) rest hall h.longest
      rw [List.cons_append] at htake hdrop
      rw [htake, hdrop]
    rw [readFrom_eq_reading, step_inside, List.cons_append, htrim]
    simp only [stepInside, hpiece, Step.reading]

/-- A run is more than blanks. -/
theorem LongestRun.not_blank {run rest : List Char} (h : LongestRun run rest) :
    (Text.trim (String.ofList run).toList).isEmpty = false := by
  rw [String.toList_ofList, Text.trim, Text.trimStart_of_stopsAt run h.front]
  cases htrim : Text.trimEnd run with
  | nil =>
    have hall := Text.allBlank_of_trimEnd run htrim
    cases hrun : run with
    | nil => exact absurd hrun h.nonempty
    | cons c r =>
      have hfront := h.front
      rw [hrun] at hall hfront
      have := hall c List.mem_cons_self
      rw [Text.head_of_stopsAt _ c r hfront] at this
      cases this
  | cons c r => rfl

theorem readClosing_of_name (name rest : List Char) (h : Text.LongestName name ('>' :: rest)) :
    readClosing (String.ofList name) (name ++ '>' :: rest) = .ok rest := by
  simp only [readClosing, h.nameRun_eq, h.afterName_eq, if_true]

theorem readFrom_inside_closing (name : List Char) (outer : List String) (rest : List Char)
    (h : Text.LongestName name ('>' :: rest)) :
    readFrom (.inside (String.ofList name) outer) ('<' :: '/' :: (name ++ '>' :: rest)) =
      (leave outer [] (String.ofList name) rest).reading.after [.closed] := by
  rw [readFrom_eq_reading, step_inside, trimStart_angle]
  simp only [stepInside, piece, readClosing_of_name name rest h]
  exact reading_leave outer [.closed] (String.ofList name) rest

/-! ### Elements -/

theorem readFrom_inside_opening (tag : String) (outer : List String) (c : Char)
    (r : List Char) (hc : Text.isNameChar c = true) (hdepth : outer.length + 1 < maxDepth) :
    readFrom (.inside tag outer) ('<' :: c :: r) = (enter (tag :: outer) (c :: r)).reading := by
  rw [readFrom_eq_reading, step_inside, trimStart_angle]
  simp only [stepInside, piece_of_nameChar c r hc, Nat.not_le.mpr hdepth, if_false]

/-- An element after its `<` begins with a name. -/
theorem exists_nameChar_of_elementText (s : List Char) (e : Element) (h : ElementText s e) :
    ∃ c r, s = '<' :: c :: r ∧ Text.isNameChar c = true := by
  have hname : ∀ (name s : List Char) (rest : List Char), Text.LongestName name rest →
      ∃ c r, '<' :: (name ++ s) = '<' :: c :: r ∧ Text.isNameChar c = true := by
    intro name s rest hn
    cases name with
    | nil => exact absurd rfl hn.nonempty
    | cons c r => exact ⟨c, r ++ s, rfl, hn.letters c List.mem_cons_self⟩
  cases h with
  | empty name blanks attributes pairs hn _ _ => exact hname _ _ _ hn
  | full name blanks attributes inner pairs children hn _ _ _ => exact hname _ _ _ hn

/-- A tag that closes itself is read as an element without children. -/
theorem reading_enter_empty (name blanks attributes rest : List Char)
    (pairs : List (String × String)) (around : List String)
    (hname : Text.LongestName name (blanks ++ attributes ++ ['/', '>']))
    (hb : Text.AllBlank blanks) (ha : AttributesText attributes pairs) :
    (enter around (name ++ (blanks ++ attributes ++ ['/', '>']) ++ rest)).reading =
      (leave around [] (String.ofList name) rest).reading.after
        (.opened (String.ofList name) :: givenEvents pairs ++ [.closed]) := by
  have hends : EndsTag ('/' :: '>' :: rest) := ⟨rest, Or.inl rfl⟩
  have hname' : Text.LongestName name (blanks ++ (attributes ++ '/' :: '>' :: rest)) := by
    have := hname.before _ (hname.longest.append rest (by simp))
    simpa using this
  have hopening := readOpening_of_text name blanks attributes _ pairs hname' hb ha hends
  have htext : name ++ (blanks ++ attributes ++ ['/', '>']) ++ rest =
      name ++ (blanks ++ (attributes ++ '/' :: '>' :: rest)) := by simp
  have henter : enter around (name ++ (blanks ++ (attributes ++ '/' :: '>' :: rest))) =
      leave around (.opened (String.ofList name) :: givenEvents pairs ++ [.closed])
        (String.ofList name) rest := by
    simp only [enter, hopening, hname'.nameRun_eq, tagEnd]
  rw [htext, henter, reading_leave]

/-- Between two tags of one name the content is read as it is read inside that element. -/
theorem reading_enter_full (name blanks attributes inner rest : List Char)
    (pairs : List (String × String)) (around : List String) (events : List Event)
    (hname : Text.LongestName name
      (blanks ++ attributes ++ '>' :: (inner ++ '<' :: '/' :: (name ++ ['>']))))
    (hb : Text.AllBlank blanks) (ha : AttributesText attributes pairs)
    (hinner : readFrom (.inside (String.ofList name) around)
        (inner ++ '<' :: '/' :: (name ++ '>' :: rest)) =
      (readFrom (.inside (String.ofList name) around)
        ('<' :: '/' :: (name ++ '>' :: rest))).after events) :
    (enter around (name ++ (blanks ++ attributes ++ '>' :: (inner ++ '<' :: '/' ::
        (name ++ ['>']))) ++ rest)).reading =
      (leave around [] (String.ofList name) rest).reading.after
        (.opened (String.ofList name) :: givenEvents pairs ++ events ++ [.closed]) := by
  have hends : EndsTag ('>' :: (inner ++ '<' :: '/' :: (name ++ '>' :: rest))) :=
    ⟨_, Or.inr rfl⟩
  have hname' : Text.LongestName name
      (blanks ++ (attributes ++ '>' :: (inner ++ '<' :: '/' :: (name ++ '>' :: rest)))) := by
    have := hname.before _ (hname.longest.append rest (by simp))
    simpa using this
  have hopening := readOpening_of_text name blanks attributes _ pairs hname' hb ha hends
  have htext : name ++ (blanks ++ attributes ++ '>' :: (inner ++ '<' :: '/' ::
      (name ++ ['>']))) ++ rest = name ++ (blanks ++ (attributes ++ '>' ::
        (inner ++ '<' :: '/' :: (name ++ '>' :: rest)))) := by simp
  have hclosing := readFrom_inside_closing name around rest
    (hname.before _ (Text.stopsAt_cons _ _ _ (by decide)))
  have henter : enter around (name ++ (blanks ++ (attributes ++ '>' :: (inner ++ '<' ::
      '/' :: (name ++ '>' :: rest))))) =
      .go (.opened (String.ofList name) :: givenEvents pairs)
        (.inside (String.ofList name) around)
        (inner ++ '<' :: '/' :: (name ++ '>' :: rest)) := by
    simp only [enter, hopening, hname'.nameRun_eq, tagEnd]
  rw [htext, henter, Step.reading, hinner, hclosing]
  simp

mutual

/-- An element is read after its `<` whatever follows it, as long as it is not too deep. -/
theorem enter_of_elementText (s : List Char) (e : Element) :
    ElementText s e → ∀ (around : List String) (rest : List Char),
      around.length + e.depth ≤ maxDepth →
      ∃ events, Makes events e ∧ (enter around (s.tail ++ rest)).reading =
        (leave around [] e.tag rest).reading.after events
  | .empty name blanks attributes pairs hname hb ha, around, rest, _ => by
    refine ⟨_, makes_element (String.ofList name) pairs [] [] adds_nil, ?_⟩
    rw [List.append_nil]
    exact reading_enter_empty name blanks attributes rest pairs around hname hb ha
  | .full name blanks attributes inner pairs children hname hb ha hinner, around, rest,
      hdepth => by
    rw [depth_element] at hdepth
    obtain ⟨events, hadds, hread⟩ := readFrom_of_childrenText inner children hinner
      (String.ofList name) around (name ++ '>' :: rest) (by omega)
    exact ⟨_, makes_element (String.ofList name) pairs events children hadds,
      reading_enter_full name blanks attributes inner rest pairs around events hname hb ha hread⟩

/-- The content of an open element is read up to its closing tag. -/
theorem readFrom_of_childrenText (s : List Char) (nodes : List Node) :
    ChildrenText s nodes → ∀ (tag : String) (outer : List String) (rest : List Char),
      outer.length + 1 + Node.depthAll nodes ≤ maxDepth →
      ∃ events, Adds events nodes ∧ readFrom (.inside tag outer) (s ++ '<' :: '/' :: rest) =
        (readFrom (.inside tag outer) ('<' :: '/' :: rest)).after events
  | .nil, tag, outer, rest, _ => ⟨[], adds_nil, rfl⟩
  | .blank c s nodes hc hs, tag, outer, rest, hdepth => by
    obtain ⟨events, hadds, hread⟩ := readFrom_of_childrenText s nodes hs tag outer rest hdepth
    refine ⟨events, hadds, ?_⟩
    rw [List.cons_append, readFrom_inside_blank tag outer c _ hc]
    exact hread
  | .comment body s nodes hbody hs, tag, outer, rest, hdepth => by
    obtain ⟨events, hadds, hread⟩ := readFrom_of_childrenText s nodes hs tag outer rest hdepth
    refine ⟨events, hadds, ?_⟩
    have htext : '<' :: '!' :: '-' :: '-' :: (body ++ commentEnd ++ s) ++ '<' :: '/' :: rest =
        '<' :: '!' :: '-' :: '-' :: (body ++ commentEnd ++ (s ++ '<' :: '/' :: rest)) := by
      simp
    rw [htext, readFrom_inside_comment tag outer body _ hbody]
    exact hread
  | .element text s e nodes he hs, tag, outer, rest, hdepth => by
    rw [depthAll_cons, Node.depth] at hdepth
    have hpos := depth_pos e
    obtain ⟨es, hmakes, hfirst⟩ := enter_of_elementText text e he (tag :: outer)
      (s ++ '<' :: '/' :: rest) (by simp only [List.length_cons]; omega)
    obtain ⟨fs, hadds, hread⟩ := readFrom_of_childrenText s nodes hs tag outer rest (by omega)
    obtain ⟨c, r, rfl, hc⟩ := exists_nameChar_of_elementText text e he
    refine ⟨es ++ fs, hmakes.adds.append hadds, ?_⟩
    have htext : '<' :: c :: r ++ s ++ '<' :: '/' :: rest =
        '<' :: c :: (r ++ (s ++ '<' :: '/' :: rest)) := by simp
    rw [htext, readFrom_inside_opening tag outer c _ hc (by omega)]
    rw [List.tail_cons, List.cons_append] at hfirst
    rw [hfirst]
    simp only [leave, Step.reading, hread]
    simp
  | .run run s nodes hrun hs, tag, outer, rest, hdepth => by
    rw [depthAll_cons, Node.depth] at hdepth
    obtain ⟨events, hadds, hread⟩ := readFrom_of_childrenText s nodes hs tag outer rest (by omega)
    have hlongest : LongestRun run (s ++ '<' :: '/' :: rest) := by
      refine ⟨hrun.nonempty, hrun.front, hrun.plain, ?_⟩
      cases s with
      | nil => exact Text.stopsAt_cons _ _ _ (by decide)
      | cons c s => exact hrun.longest.append _ (by simp)
    refine ⟨.run (String.ofList run) :: events, ?_, ?_⟩
    · exact (adds_run (String.ofList run) hrun.not_blank).append hadds
    · rw [List.append_assoc, readFrom_inside_run tag outer run _ hlongest, hread]
      simp

end

end FrameUI.Markup
