import FrameUI.Markup.Written
import FrameUI.Proofs.Markup.Documents
import FrameUI.Proofs.Markup.Normalized
import FrameUI.Proofs.Tables

/-!
# Writing and parsing

What a tree is written as is text of the grammar, and it denotes the normal form of the
tree. A document therefore survives writing and parsing up to its normal form.
-/

namespace FrameUI.Markup

/-! ### Encoded text -/

theorem encode_append (a b : List Char) :
    Entity.encode (a ++ b) = Entity.encode a ++ Entity.encode b := by
  simp [Entity.encode]

/-- The characters that are not written as they are. -/
def needsEntity (c : Char) : Bool :=
  c == '&' || c == '<' || c == '>' || c == Entity.quote || c == Entity.apostrophe

theorem encodeChar_of_plain (c : Char) (h : needsEntity c = false) :
    Entity.encodeChar c = [c] := by
  simp only [needsEntity, Bool.or_eq_false_iff, beq_eq_false_iff_ne] at h
  obtain ⟨⟨⟨⟨h1, h2⟩, h3⟩, h4⟩, h5⟩ := h
  simp only [Entity.encodeChar, h1, h2, h3, h4, h5, if_false]

/-- A written character is itself, or an entity of letters, digits, `#` and `;`. -/
theorem encodeChar_cases (c : Char) :
    (needsEntity c = false ∧ Entity.encodeChar c = [c]) ∨
      ∃ r, Entity.encodeChar c = '&' :: r ∧ r.any needsEntity = false := by
  cases h : needsEntity c with
  | false => exact Or.inl ⟨rfl, encodeChar_of_plain c h⟩
  | true =>
    right
    simp only [needsEntity, Bool.or_eq_true, beq_iff_eq] at h
    rcases h with (((rfl | rfl) | rfl) | rfl) | rfl
    · exact ⟨['a', 'm', 'p', ';'], rfl, rfl⟩
    · exact ⟨['l', 't', ';'], rfl, rfl⟩
    · exact ⟨['g', 't', ';'], rfl, rfl⟩
    · exact ⟨['q', 'u', 'o', 't', ';'], rfl, rfl⟩
    · exact ⟨['#', '3', '9', ';'], rfl, rfl⟩

theorem plain_of_mem_encode (s : List Char) (d : Char) (h : d ∈ Entity.encode s) :
    d = '&' ∨ needsEntity d = false := by
  simp only [Entity.encode, List.mem_flatMap] at h
  obtain ⟨c, _, hd⟩ := h
  rcases encodeChar_cases c with ⟨hc, he⟩ | ⟨r, he, hr⟩
  · rw [he, List.mem_singleton] at hd
    rw [hd]
    exact Or.inr hc
  · rw [he, List.mem_cons] at hd
    rcases hd with rfl | hd
    · exact Or.inl rfl
    · have hplain := List.any_eq_false.mp hr d hd
      exact Or.inr (Bool.eq_false_iff.mpr hplain)

theorem not_mem_encode (s : List Char) (d : Char) (hne : d ≠ '&') (h : needsEntity d = true) :
    d ∉ Entity.encode s := by
  intro hm
  rcases plain_of_mem_encode s d hm with rfl | hd
  · exact hne rfl
  · rw [h] at hd
    cases hd

theorem not_blank_of_needsEntity (c : Char) (h : needsEntity c = true) :
    Text.isBlank c = false := by
  simp only [needsEntity, Bool.or_eq_true, beq_iff_eq] at h
  rcases h with (((rfl | rfl) | rfl) | rfl) | rfl <;> decide

theorem encode_of_allBlank (s : List Char) (h : Text.AllBlank s) : Entity.encode s = s := by
  induction s with
  | nil => rfl
  | cons c s ih =>
    have hc := h c List.mem_cons_self
    have hs : Text.AllBlank s := fun d hd => h d (List.mem_cons_of_mem _ hd)
    have hplain : needsEntity c = false := by
      cases hn : needsEntity c with
      | false => rfl
      | true =>
        rw [not_blank_of_needsEntity c hn] at hc
        cases hc
    have hcons : Entity.encode (c :: s) = Entity.encodeChar c ++ Entity.encode s := by
      simp [Entity.encode]
    rw [hcons, ih hs, encodeChar_of_plain c hplain]
    rfl

/-- A text that begins with no blank is written as a run. -/
theorem longestRun_encode (c : Char) (s rest : List Char) (hc : Text.isBlank c = false)
    (hrest : Text.StopsAt (· != '<') rest) : LongestRun (Entity.encode (c :: s)) rest := by
  have hcons : Entity.encode (c :: s) = Entity.encodeChar c ++ Entity.encode s := by
    simp [Entity.encode]
  have hplain : '<' ∉ Entity.encode (c :: s) := not_mem_encode _ _ (by decide) (by decide)
  rcases encodeChar_cases c with ⟨_, he⟩ | ⟨r, he, _⟩
  · rw [he] at hcons
    refine ⟨?_, ?_, hplain, hrest⟩
    · rw [hcons]
      simp
    · rw [hcons]
      exact Text.stopsAt_cons _ _ _ hc
  · rw [he] at hcons
    refine ⟨?_, ?_, hplain, hrest⟩
    · rw [hcons]
      simp
    · rw [hcons]
      exact Text.stopsAt_cons _ _ _ (by decide)

theorem unescape_encode (s : List Char) :
    Entity.unescape (String.ofList (Entity.encode s)) = String.ofList s := by
  rw [Entity.unescape, String.toList_ofList, Entity.decode_encode]

/-- A written run in front of content is that content with what is left of the run. -/
theorem childrenText_encode_append (run rest : List Char) (nodes : List Node)
    (hrest : Text.StopsAt (· != '<') rest) (h : ChildrenText rest nodes) :
    ChildrenText (Entity.encode run ++ rest)
      ((Node.tidy? (.text (String.ofList run))).toList ++ nodes) := by
  obtain ⟨blanks, hb, hrun⟩ := Text.exists_blanks_trimStart run
  have hcode : Entity.encode run = blanks ++ Entity.encode (Text.trimStart run) := by
    conv => lhs; rw [hrun, encode_append, encode_of_allBlank blanks hb]
  rw [hcode, List.append_assoc, Node.tidy?, String.toList_ofList]
  apply ChildrenText.blanks_append hb
  cases ht : Text.trimStart run with
  | nil => exact h
  | cons c s =>
    have hc := Text.not_blank_of_trimStart run c s ht
    have hlongest := longestRun_encode c s rest hc hrest
    have hnode := ChildrenText.run _ rest nodes hlongest h
    rw [unescape_encode] at hnode
    exact hnode

/-! ### Written attributes -/

theorem longestName_of_isName (name : String) (rest : List Char) (h : isName name = true)
    (hrest : Text.StopsAt Text.isNameChar rest) : Text.LongestName name.toList rest := by
  simp only [isName, Bool.and_eq_true, Bool.not_eq_true', List.all_eq_true,
    List.isEmpty_eq_false_iff] at h
  exact ⟨h.1, h.2, hrest⟩

/-- Written attributes, and any blanks after them, are blanks and then attributes. -/
theorem attributesText_write (entries : List (String × String)) (tail : List Char)
    (hnames : ∀ entry ∈ entries, isName entry.1 = true) (htail : Text.AllBlank tail) :
    ∃ blanks text, writeAttributes entries ++ tail = blanks ++ text ∧ Text.AllBlank blanks ∧
      AttributesText text (entries.map fun entry =>
        (entry.1, String.ofList (Entity.encode entry.2.toList))) := by
  induction entries with
  | nil => exact ⟨tail, [], by simp [writeAttributes], htail, .nil⟩
  | cons entry entries ih =>
    obtain ⟨blanks, text, heq, hb, htext⟩ :=
      ih fun e he => hnames e (List.mem_cons_of_mem _ he)
    have hname := hnames entry List.mem_cons_self
    have hspace : Text.AllBlank [' '] := Text.AllBlank.cons (by decide) Text.allBlank_nil
    have hvalue : Entity.quote ∉ Entity.encode entry.2.toList :=
      not_mem_encode _ _ (by decide) (by decide)
    have hcons : AttributesText _ _ := .cons entry.1.toList (Entity.encode entry.2.toList)
      blanks text Entity.quote _ (longestName_of_isName entry.1 _ hname
        (Text.stopsAt_cons _ _ _ (by decide))) (Or.inl rfl) hvalue hb htext
    rw [String.ofList_toList] at hcons
    refine ⟨[' '], _, ?_, hspace, hcons⟩
    have hw : writeAttributes (entry :: entries) = ' ' :: (entry.1.toList ++
        ['=', Entity.quote] ++ Entity.encode entry.2.toList ++ [Entity.quote]) ++
          writeAttributes entries := by simp [writeAttributes]
    rw [hw, List.append_assoc, heq]
    simp

/-- Behind a name, written attributes are read as they were written. -/
theorem exists_attributesText_write (tag : String) (entries : List (String × String))
    (tail : List Char) (c : Char) (rest : List Char) (htag : isName tag = true)
    (hnames : ∀ entry ∈ entries, isName entry.1 = true) (htail : Text.AllBlank tail)
    (hstop : Text.StopsAt Text.isNameChar (tail ++ c :: rest)) :
    ∃ blanks text, writeAttributes entries ++ tail = blanks ++ text ∧ Text.AllBlank blanks ∧
      AttributesText text (entries.map fun entry =>
        (entry.1, String.ofList (Entity.encode entry.2.toList))) ∧
      Text.LongestName tag.toList (blanks ++ text ++ c :: rest) := by
  obtain ⟨blanks, text, heq, hb, htext⟩ := attributesText_write entries tail hnames htail
  refine ⟨blanks, text, heq, hb, htext, ?_⟩
  apply longestName_of_isName tag _ htag
  rw [← heq]
  cases entries with
  | nil => exact hstop
  | cons entry entries => exact Text.stopsAt_cons _ _ _ (by decide)

theorem attributeTable_write (d : Dict String) :
    attributeTable (d.entries.map fun entry =>
      (entry.1, String.ofList (Entity.encode entry.2.toList))) = d := by
  have hmap : ((d.entries.map fun entry =>
      (entry.1, String.ofList (Entity.encode entry.2.toList))).map fun pair =>
        (pair.1, Entity.unescape pair.2)) = d.entries := by
    rw [List.map_map]
    conv => rhs; rw [← List.map_id d.entries]
    apply List.map_congr_left
    intro entry _
    simp only [Function.comp, unescape_encode, String.ofList_toList, id]
  rw [attributeTable, hmap, Dict.ofList_entries]

/-! ### Written trees -/

theorem stopsAt_of_elementText (s : List Char) (e : Element) (h : ElementText s e)
    (rest : List Char) : Text.StopsAt (· != '<') (s ++ rest) := by
  obtain ⟨c, r, rfl, _⟩ := exists_nameChar_of_elementText s e h
  exact Text.stopsAt_cons _ _ _ (by decide)

theorem elementText_write_of_children (tag : String) (attributes : Dict String)
    (children nodes : List Node) (htag : isName tag = true)
    (hnames : attributes.keys.all isName = true)
    (h : ChildrenText (Node.writeAll children) nodes) (hnil : children = [] → nodes = []) :
    ElementText (Element.write ⟨tag, attributes, children⟩) ⟨tag, attributes, nodes⟩ := by
  have hentries : ∀ entry ∈ attributes.entries, isName entry.1 = true := by
    intro entry he
    exact List.all_eq_true.mp hnames entry.1 (List.mem_map_of_mem he)
  cases children with
  | nil =>
    obtain ⟨blanks, text, heq, hb, htext, hlongest⟩ := exists_attributesText_write tag
      attributes.entries [' '] '/' ['>'] htag hentries
      (Text.AllBlank.cons (by decide) Text.allBlank_nil) (Text.stopsAt_cons _ _ _ (by decide))
    have he := ElementText.empty tag.toList blanks text _ hlongest hb htext
    rw [← heq, attributeTable_write, String.ofList_toList] at he
    rw [hnil rfl, Element.write]
    simpa using he
  | cons child children =>
    obtain ⟨blanks, text, heq, hb, htext, hlongest⟩ := exists_attributesText_write tag
      attributes.entries [] '>'
      (Node.writeAll (child :: children) ++ '<' :: '/' :: (tag.toList ++ ['>'])) htag hentries
      Text.allBlank_nil (Text.stopsAt_cons _ _ _ (by decide))
    have he := ElementText.full tag.toList blanks text _ _ nodes hlongest hb htext h
    rw [← heq, attributeTable_write, String.ofList_toList] at he
    rw [Element.write]
    simpa [Node.writeAll] using he

mutual

/-- A tree is written as an element that denotes its normal form. -/
theorem elementText_write : (e : Element) → e.wellNamed = true →
    ElementText e.write e.normalize
  | ⟨tag, attributes, children⟩, h => by
    simp only [Element.wellNamed, Bool.and_eq_true] at h
    obtain ⟨⟨htag, hnames⟩, hchildren⟩ := h
    have hall := childrenText_writeAll children hchildren []
    have hempty : String.ofList [] = "" := rfl
    rw [hempty, tidied_empty_cons] at hall
    rw [Element.normalize]
    apply elementText_write_of_children tag attributes children _ htag hnames hall
    intro heq
    subst heq
    rfl

/-- A run of text and the nodes after it are written as content that denotes them. -/
theorem childrenText_writeAll : (nodes : List Node) → Node.allWellNamed nodes = true →
    ∀ run : List Char, ChildrenText (Entity.encode run ++ Node.writeAll nodes)
      ((Node.mergeRuns (.text (String.ofList run) :: Node.normalizeEach nodes)).filterMap
        Node.tidy?)
  | [], _, run => by
    have h := childrenText_encode_append run [] [] (Text.stopsAt_nil _) .nil
    rw [Node.writeAll, Node.normalizeEach, Node.mergeRuns, Node.mergeRuns, filterMap_tidy?_cons]
    exact h
  | .element e :: nodes, h, run => by
    simp only [Node.allWellNamed, Bool.and_eq_true] at h
    obtain ⟨he, hnodes⟩ := h
    have hfirst := elementText_write e he
    have hempty : String.ofList [] = "" := rfl
    have hrest := childrenText_writeAll nodes hnodes []
    rw [hempty, tidied_empty_cons] at hrest
    have hboth := ChildrenText.element _ _ _ _ hfirst hrest
    rw [Node.normalizeEach, mergeRuns_text_element, filterMap_tidy?_cons, filterMap_tidy?_cons]
    rw [Node.writeAll, Node.write]
    exact childrenText_encode_append run _ _ (stopsAt_of_elementText _ _ hfirst _) hboth
  | .text s :: nodes, h, run => by
    simp only [Node.allWellNamed] at h
    have hrest := childrenText_writeAll nodes h (run ++ s.toList)
    have hrun : String.ofList (run ++ s.toList) = String.ofList run ++ s := by
      rw [String.ofList_append, String.ofList_toList]
    rw [hrun, encode_append, List.append_assoc] at hrest
    rw [Node.normalizeEach, mergeRuns_text_text, Node.writeAll, Node.write]
    exact hrest

end

/-- An element begins and ends with characters that are no blanks. -/
theorem trim_of_elementText (s : List Char) (e : Element) (h : ElementText s e) :
    Text.trim s = s := by
  have hends : ∃ inner, s = ('<' :: inner) ++ ['>'] := by
    cases h with
    | empty name blanks attributes pairs _ _ _ =>
      exact ⟨name ++ (blanks ++ attributes ++ ['/']), by simp⟩
    | full name blanks attributes inner pairs children _ _ _ _ =>
      exact ⟨name ++ (blanks ++ attributes ++ '>' :: (inner ++ '<' :: '/' :: name)), by simp⟩
  obtain ⟨inner, rfl⟩ := hends
  have hstart : Text.trimStart ('<' :: inner ++ ['>']) = '<' :: inner ++ ['>'] :=
    trimStart_angle _
  rw [Text.trim, hstart, Text.trimEnd_append_singleton _ _ (by decide)]

theorem tag_normalize (e : Element) : e.normalize.tag = e.tag := by
  cases e
  rfl

/-- Parsing what a tree is written as gives the normal form of the tree. -/
theorem parse_toMarkup_eq_normalize (root : Element) (hname : root.tag = rootName)
    (hnames : root.wellNamed = true) (hdepth : root.depth ≤ maxDepth) :
    (parse .lenient root.toMarkup).outcome = .ok root.normalize := by
  have htext := elementText_write root hnames
  apply outcome_parse_of_documentText
  rw [Element.toMarkup, String.toList_ofList, trim_of_elementText _ _ htext]
  refine ⟨htext, ?_, ?_⟩
  · rw [tag_normalize]
    exact hname
  · rw [depth_normalize]
    exact hdepth

/-- A tree with neighbouring runs, runs of blanks, an empty run and special characters. -/
def unevenTree : Element :=
  ⟨rootName, ∅, [.text "\n ", .text "\t",
    .element ⟨"Text", .ofList [("id", "a<b"), ("color", "\"&\"")],
      [.text " 1 <", .text "", .text " 2 ", .element ⟨"Separator", ∅, []⟩]⟩,
    .text "", .text "  tail "]⟩

theorem parse_toMarkup_unevenTree :
    unevenTree.tag = rootName ∧ unevenTree.wellNamed = true ∧ unevenTree.depth ≤ maxDepth ∧
      (parse .lenient unevenTree.toMarkup).outcome = .ok ⟨rootName, ∅,
        [.element ⟨"Text", .ofList [("id", "a<b"), ("color", "\"&\"")],
          [.text "1 < 2 ", .element ⟨"Separator", ∅, []⟩]⟩, .text "tail "]⟩ := by
  have hnames : unevenTree.wellNamed = true := by decide
  have hdepth : unevenTree.depth ≤ maxDepth := by decide
  have hnormal : unevenTree.normalize = ⟨rootName, ∅,
      [.element ⟨"Text", .ofList [("id", "a<b"), ("color", "\"&\"")],
        [.text "1 < 2 ", .element ⟨"Separator", ∅, []⟩]⟩, .text "tail "]⟩ := by decide
  refine ⟨rfl, hnames, hdepth, ?_⟩
  rw [parse_toMarkup_eq_normalize unevenTree rfl hnames hdepth, hnormal]

end FrameUI.Markup
