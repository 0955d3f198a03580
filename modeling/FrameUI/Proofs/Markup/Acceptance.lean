import FrameUI.Proofs.Markup.Admissible

/-!
# Written trees under the strict validator

What a tree is written as holds one event for each of its tags, attributes and joined runs. The
strict parser takes in an event whenever the part that it brings is admissible, so it accepts a
written tree exactly when the normal form of the tree is admissible.
-/

namespace FrameUI.Markup

/-! ### Events that pass their checks -/

namespace Assembly

theorem outcome_takeAll_append (v : Validator) (a : Assembly) (es fs : List Event) :
    (a.takeAll v (es ++ fs)).outcome =
      (a.takeAll v es).outcome.bind fun b => (b.takeAll v fs).outcome := by
  induction es generalizing a with
  | nil => rfl
  | cons event es ih =>
    rw [List.cons_append, takeAll, takeAll, Checked.outcome_bind, Checked.outcome_bind]
    cases (a.take v event).outcome with
    | error e => rfl
    | ok next => exact ih next

/-- Whether the strict validator lets a tree grow by some events. -/
def Passes (a : Assembly) (events : List Event) : Prop :=
  (a.takeAll .strict events).outcome = .ok (events.foldl grow a)

theorem passes_nil (a : Assembly) : a.Passes [] := rfl

theorem Passes.append {a : Assembly} {es fs : List Event} (h : a.Passes es)
    (hrest : (es.foldl grow a).Passes fs) : a.Passes (es ++ fs) := by
  rw [Passes, outcome_takeAll_append, h, List.foldl_append]
  exact hrest

theorem passes_single {a : Assembly} {event : Event}
    (h : (a.take .strict event).outcome = .ok (a.grow event)) : a.Passes [event] := by
  rw [Passes, takeAll, Checked.outcome_bind_of_ok _ _ _ h]
  rfl

theorem passes_opened (a : Assembly) (tag : String) (h : (Tag.ofName tag).isKnown = true) :
    a.Passes [.opened tag] := by
  apply passes_single
  have htag := (Validator.outcome_tag_strict_iff tag _).mpr ⟨h, rfl⟩
  rw [take, Checked.outcome_bind_of_ok _ _ _ htag]
  rfl

theorem passes_given (e : Element) (outer : List Element) (root : Option Element)
    (name raw : String) (hname : isAllowedAttribute e.tag name = true)
    (hvalue : fits name raw = true) : Passes ⟨e :: outer, root⟩ [.given name raw] := by
  apply passes_single
  have hlisted := (Validator.outcome_attributeName_strict_iff e.tag name true).mpr ⟨hname, rfl⟩
  have hfits := (Validator.outcome_attributeValue_strict_iff name raw).mpr hvalue
  simp only [take]
  rw [Checked.outcome_bind_of_ok _ _ _ hlisted, Checked.outcome_bind_of_ok _ _ _ hfits]
  rfl

theorem passes_run (a : Assembly) (raw : String) (h : isDangerous raw.toList = false) :
    a.Passes [.run raw] := by
  apply passes_single
  have htext := (Validator.outcome_text_strict_iff raw).mpr h
  rw [take, Checked.outcome_bind_of_ok _ _ _ htext]
  simp only [grow]
  split
  · rfl
  · rfl

theorem passes_closed (a : Assembly) : a.Passes [.closed] := passes_single rfl

theorem passes_givenEvents (pairs : List (String × String)) (e : Element) (outer : List Element)
    (root : Option Element) (h : ∀ pair ∈ pairs, admitsAttribute e.tag pair = true) :
    Passes ⟨e :: outer, root⟩ (givenEvents pairs) := by
  induction pairs generalizing e with
  | nil => exact passes_nil _
  | cons pair pairs ih =>
    obtain ⟨hpair, hrest⟩ := List.forall_mem_cons.mp h
    obtain ⟨hname, hvalue⟩ := Bool.and_eq_true_iff.mp hpair
    exact (passes_given e outer root pair.1 pair.2 hname hvalue).append
      (ih (e.withAttribute pair.1 (Entity.unescape pair.2)) hrest)

/-- An element passes wherever it stands if what it brings passes. -/
theorem passes_element (tag : String) (pairs : List (String × String)) (events : List Event)
    (htag : (Tag.ofName tag).isKnown = true)
    (hpairs : ∀ pair ∈ pairs, admitsAttribute tag pair = true)
    (hevents : ∀ a : Assembly, a.Passes events) (a : Assembly) :
    a.Passes (.opened tag :: givenEvents pairs ++ events ++ [.closed]) := by
  have hopened := passes_opened a tag htag
  have hgiven : Passes ⟨.ofTag tag :: a.pending, a.root⟩ (givenEvents pairs) :=
    passes_givenEvents pairs (.ofTag tag) a.pending a.root hpairs
  exact ((hopened.append hgiven).append (hevents _)).append (passes_closed _)

end Assembly

open Assembly

/-! ### Written runs and attributes -/

theorem isDangerous_encode (s : List Char) : isDangerous (Entity.encode s) = isDangerous s := by
  rw [← isDangerous_decode, Entity.decode_encode]

theorem fits_encode (name value : String) :
    fits name (String.ofList (Entity.encode value.toList)) = fits name value := by
  rw [← fits_unescape, unescape_encode, String.ofList_toList]

/-- A written run is read as one event, or as none if it is blank. -/
theorem readFrom_encode_append (tag : String) (outer : List String) (run rest : List Char)
    (hrest : Text.StopsAt (· != '<') rest)
    (hrun : Node.allAdmissible (Node.tidy? (.text (String.ofList run))).toList = true) :
    ∃ events, (∀ a : Assembly, a.Passes events) ∧
      readFrom (.inside tag outer) (Entity.encode run ++ rest) =
        (readFrom (.inside tag outer) rest).after events := by
  obtain ⟨blanks, hb, hparts⟩ := Text.exists_blanks_trimStart run
  have hcode : Entity.encode run = blanks ++ Entity.encode (Text.trimStart run) := by
    conv => lhs; rw [hparts, encode_append, encode_of_allBlank blanks hb]
  rw [hcode, List.append_assoc, readFrom_inside_blanks tag outer blanks _ hb]
  rw [Node.tidy?, String.toList_ofList] at hrun
  cases htrim : Text.trimStart run with
  | nil => exact ⟨[], passes_nil, rfl⟩
  | cons c s =>
    rw [htrim] at hrun
    have hharmless : isDangerous (c :: s) = false := by
      simpa [Node.allAdmissible] using hrun
    have hlongest := longestRun_encode c s rest (Text.not_blank_of_trimStart run c s htrim) hrest
    refine ⟨[.run (String.ofList (Entity.encode (c :: s)))], fun a => passes_run a _ ?_,
      readFrom_inside_run tag outer _ rest hlongest⟩
    rw [String.toList_ofList, isDangerous_encode]
    exact hharmless

/-! ### Names -/

theorem isName_of_isKnown (name : String) (h : (Tag.ofName name).isKnown = true) :
    isName name = true := by
  have hnames : ∀ tag ∈ Tag.known, isName tag.name = true := by decide
  rw [Tag.ofName] at h
  cases hfind : Tag.known.find? fun tag => tag.name == name with
  | none =>
    rw [hfind] at h
    cases h
  | some tag =>
    have heq : tag.name = name := by simpa using List.find?_some hfind
    rw [← heq]
    exact hnames tag (List.mem_of_find?_eq_some hfind)

theorem isName_of_isAllowedAttribute (tag name : String)
    (h : isAllowedAttribute tag name = true) : isName name = true := by
  have hglobal : globalAttributes.all isName = true := by decide
  have hlocal : ∀ kind, (allowedAttributes kind).all isName = true := by
    intro kind
    cases kind <;> decide
  rcases Bool.or_eq_true_iff.mp h with h | h
  · exact List.all_eq_true.mp hglobal name (List.contains_iff_mem.mp h)
  · exact List.all_eq_true.mp (hlocal _) name (List.contains_iff_mem.mp h)

theorem exists_nameChar_write (e : Element) (h : isName e.tag = true) :
    ∃ c r, e.write = '<' :: c :: r ∧ Text.isNameChar c = true := by
  obtain ⟨tag, attributes, children⟩ := e
  simp only [isName, Bool.and_eq_true, Bool.not_eq_true', List.isEmpty_eq_false_iff,
    List.all_eq_true] at h
  cases hname : tag.toList with
  | nil => exact absurd hname h.1
  | cons c r =>
    have hc := h.2 c (by rw [hname]; exact List.mem_cons_self)
    cases children with
    | nil => exact ⟨c, _, by rw [Element.write, hname]; rfl, hc⟩
    | cons child children => exact ⟨c, _, by rw [Element.write, hname]; rfl, hc⟩

/-! ### Written trees -/

mutual

/-- An element with an admissible normal form is written as events that pass. -/
theorem enter_write : (e : Element) → e.normalize.admissible = true →
    ∀ (around : List String) (rest : List Char), around.length + e.depth ≤ maxDepth →
      ∃ events, (∀ a : Assembly, a.Passes events) ∧
        (enter around (e.write.tail ++ rest)).reading =
          (leave around [] e.tag rest).reading.after events
  | ⟨tag, attributes, children⟩, h, around, rest, hdepth => by
    obtain ⟨htag, hentries, hchildren⟩ := (Element.admissible_iff _).mp h
    have hname := isName_of_isKnown tag htag
    have hnames : ∀ entry ∈ attributes.entries, isName entry.1 = true := fun entry hentry =>
      isName_of_isAllowedAttribute tag entry.1
        (Bool.and_eq_true_iff.mp (hentries entry hentry)).1
    have hpairs : ∀ pair ∈ attributes.entries.map (fun entry =>
        (entry.1, String.ofList (Entity.encode entry.2.toList))),
        admitsAttribute tag pair = true := by
      intro pair hpair
      obtain ⟨entry, hentry, rfl⟩ := List.mem_map.mp hpair
      have hadmits := hentries entry hentry
      rw [admitsAttribute, fits_encode]
      exact hadmits
    cases children with
    | nil =>
      obtain ⟨blanks, text, heq, hb, htext, hlongest⟩ := exists_attributesText_write tag
        attributes.entries [' '] '/' ['>'] hname hnames
        (Text.AllBlank.cons (by decide) Text.allBlank_nil) (Text.stopsAt_cons _ _ _ (by decide))
      refine ⟨_, passes_element tag _ [] htag hpairs passes_nil, ?_⟩
      have hread := reading_enter_empty tag.toList blanks text rest _ around hlongest hb htext
      rw [← heq, String.ofList_toList] at hread
      rw [Element.write]
      simpa using hread
    | cons child children =>
      rw [depth_element] at hdepth
      rw [Element.normalize, ← tidied_empty_cons] at h
      obtain ⟨events, hpasses, hinner⟩ := readFrom_writeAll (child :: children) []
        ((Element.admissible_iff _).mp h).2.2 tag around (tag.toList ++ '>' :: rest) (by omega)
      obtain ⟨blanks, text, heq, hb, htext, hlongest⟩ := exists_attributesText_write tag
        attributes.entries [] '>'
        (Node.writeAll (child :: children) ++ '<' :: '/' :: (tag.toList ++ ['>'])) hname hnames
        Text.allBlank_nil (Text.stopsAt_cons _ _ _ (by decide))
      refine ⟨_, passes_element tag _ events htag hpairs hpasses, ?_⟩
      rw [Entity.encode, List.flatMap_nil, List.nil_append] at hinner
      have hread := reading_enter_full tag.toList blanks text _ rest _ around events hlongest hb
        htext (by rw [String.ofList_toList]; exact hinner)
      rw [← heq, String.ofList_toList] at hread
      rw [Element.write]
      simpa [Node.writeAll] using hread

/-- A run of text and the nodes after it are written as events that pass. -/
theorem readFrom_writeAll : (nodes : List Node) → (run : List Char) →
    Node.allAdmissible ((Node.mergeRuns (.text (String.ofList run) ::
      Node.normalizeEach nodes)).filterMap Node.tidy?) = true →
    ∀ (tag : String) (outer : List String) (rest : List Char),
      outer.length + 1 + Node.depthAll nodes ≤ maxDepth →
      ∃ events, (∀ a : Assembly, a.Passes events) ∧
        readFrom (.inside tag outer)
            (Entity.encode run ++ Node.writeAll nodes ++ '<' :: '/' :: rest) =
          (readFrom (.inside tag outer) ('<' :: '/' :: rest)).after events
  | [], run, h, tag, outer, rest, _ => by
    rw [Node.normalizeEach, Node.mergeRuns, Node.mergeRuns, filterMap_tidy?_cons,
      List.filterMap_nil, List.append_nil] at h
    rw [Node.writeAll, List.append_nil]
    exact readFrom_encode_append tag outer run _ (Text.stopsAt_cons _ _ _ (by decide)) h
  | .element e :: nodes, run, h, tag, outer, rest, hdepth => by
    rw [Node.normalizeEach, mergeRuns_text_element, filterMap_tidy?_cons, allAdmissible_append,
      Bool.and_eq_true] at h
    obtain ⟨hrun, hnodes⟩ := h
    rw [filterMap_tidy?_cons, allAdmissible_append, Bool.and_eq_true] at hnodes
    have he : e.normalize.admissible = true := by
      simpa [Node.tidy?, Node.allAdmissible] using hnodes.1
    rw [depthAll_cons, Node.depth] at hdepth
    have hpos := depth_pos e
    obtain ⟨first, hfirst, hread⟩ := enter_write e he (tag :: outer)
      (Node.writeAll nodes ++ '<' :: '/' :: rest) (by simp only [List.length_cons]; omega)
    have hrest := hnodes.2
    rw [← tidied_empty_cons] at hrest
    obtain ⟨more, hmore, hreadMore⟩ := readFrom_writeAll nodes [] hrest tag outer rest (by omega)
    have hname := isName_of_isKnown e.tag (by
      rw [← tag_normalize]
      exact ((Element.admissible_iff _).mp he).1)
    obtain ⟨c, r, hwrite, hc⟩ := exists_nameChar_write e hname
    obtain ⟨front, hfront, hreadFront⟩ := readFrom_encode_append tag outer run
      ('<' :: c :: (r ++ (Node.writeAll nodes ++ '<' :: '/' :: rest)))
      (Text.stopsAt_cons _ _ _ (by decide)) hrun
    refine ⟨front ++ (first ++ more), fun a => ?_, ?_⟩
    · exact (hfront a).append ((hfirst _).append (hmore _))
    · have htext : Entity.encode run ++ Node.writeAll (.element e :: nodes) ++ '<' :: '/' :: rest =
          Entity.encode run ++ '<' :: c :: (r ++ (Node.writeAll nodes ++ '<' :: '/' :: rest)) := by
        rw [Node.writeAll, Node.write, hwrite]
        simp
      rw [hwrite, List.tail_cons, List.cons_append] at hread
      rw [Entity.encode, List.flatMap_nil, List.nil_append] at hreadMore
      rw [htext, hreadFront, readFrom_inside_opening tag outer c _ hc (by omega), hread]
      simp only [leave, Step.reading, hreadMore]
      simp
  | .text s :: nodes, run, h, tag, outer, rest, hdepth => by
    rw [depthAll_cons, depth_text, Nat.zero_max] at hdepth
    have hrun : String.ofList (run ++ s.toList) = String.ofList run ++ s := by
      rw [String.ofList_append, String.ofList_toList]
    rw [Node.normalizeEach, mergeRuns_text_text, ← hrun] at h
    obtain ⟨events, hpasses, hread⟩ :=
      readFrom_writeAll nodes (run ++ s.toList) h tag outer rest hdepth
    refine ⟨events, hpasses, ?_⟩
    rw [← hread, encode_append, Node.writeAll, Node.write]
    simp only [List.append_assoc]

end

mutual

/-- Known tags and listed attributes have names of the markup language. -/
theorem wellNamed_of_admissible : (e : Element) → e.admissible = true → e.wellNamed = true
  | ⟨tag, attributes, children⟩, h => by
    obtain ⟨htag, hentries, hchildren⟩ := (Element.admissible_iff _).mp h
    have hnames : attributes.keys.all isName = true := by
      apply List.all_eq_true.mpr
      intro name hmem
      obtain ⟨entry, hentry, rfl⟩ := List.mem_map.mp hmem
      exact isName_of_isAllowedAttribute tag entry.1
        (Bool.and_eq_true_iff.mp (hentries entry hentry)).1
    rw [Element.wellNamed, isName_of_isKnown tag htag, hnames,
      allWellNamed_of_allAdmissible children hchildren]
    rfl

theorem allWellNamed_of_allAdmissible : (nodes : List Node) → Node.allAdmissible nodes = true →
    Node.allWellNamed nodes = true
  | [], _ => rfl
  | .element e :: nodes, h => by
    simp only [Node.allAdmissible, Bool.and_eq_true] at h
    rw [Node.allWellNamed, wellNamed_of_admissible e h.1, allWellNamed_of_allAdmissible nodes h.2]
    rfl
  | .text s :: nodes, h => by
    simp only [Node.allAdmissible, Bool.and_eq_true] at h
    rw [Node.allWellNamed, allWellNamed_of_allAdmissible nodes h.2]

end

/-! ### Written documents -/

/-- A document of known tags and listed attributes is accepted as it is written exactly when its
normal form is admissible, and it is read as that normal form. -/
theorem parse_strict_toMarkup_iff (t root : Element) (hadmissible : t.admissible = true)
    (hname : t.tag = rootName) (hdepth : t.depth ≤ maxDepth) :
    (parse .strict t.toMarkup).outcome = .ok root ↔
      root = t.normalize ∧ t.normalize.admissible = true := by
  have hnames := wellNamed_of_admissible t hadmissible
  have htext := elementText_write t hnames
  have htrim : Text.trim t.toMarkup.toList = t.write := by
    rw [Element.toMarkup, String.toList_ofList, trim_of_elementText _ _ htext]
  have hdocument : DocumentText (Text.trim t.toMarkup.toList) t.normalize :=
    ⟨by rw [htrim]; exact htext, by rw [tag_normalize]; exact hname,
      by rw [depth_normalize]; exact hdepth⟩
  have hlenient := outcome_parse_of_documentText t.toMarkup t.normalize hdocument
  constructor
  · intro h
    have hsame : root = t.normalize :=
      Except.ok.inj ((outcome_parse_lenient_of_strict h).symm.trans hlenient)
    refine ⟨hsame, ?_⟩
    rw [← hsame]
    exact admissible_of_parse_strict h
  · rintro ⟨rfl, h⟩
    obtain ⟨events, hpasses, hread⟩ := enter_write t h [] [] (by simpa using hdepth)
    obtain ⟨c, r, hwrite, _⟩ := exists_nameChar_write t
      (by rw [hname]; decide)
    have hstart : readFrom .start (Text.trim t.toMarkup.toList) = ⟨events, none⟩ := by
      rw [hwrite, List.tail_cons, List.append_nil] at hread
      rw [htrim, hwrite, readFrom_start_angle, hread]
      simp only [leave, hname, if_true, Step.reading, readFrom_finished_nil]
      simp [Reading.after]
    rw [outcome_parse_lenient, hstart] at hlenient
    rw [outcome_parse, hstart, hpasses Assembly.empty]
    exact hlenient

end FrameUI.Markup
