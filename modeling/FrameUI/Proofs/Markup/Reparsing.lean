import FrameUI.Proofs.Markup.RoundTrip

/-!
# Parsed trees, written and parsed again

The runs of a parsed tree begin with no blank, so all that its normal form does is to join
neighbouring runs. Such neighbours come from a text that a comment divides. Main statement: what
a parsed tree is written as is parsed to its normal form, and that is the tree itself exactly when
no two of its runs are neighbours.
-/

namespace FrameUI.Markup

/-! ### Trees that are their own normal form -/

/-- Whether a run begins with something other than a blank. -/
def hasFront (run : String) : Bool := run.toList.head?.any fun c => !Text.isBlank c

mutual

/-- Whether every run in a tree has a front. -/
def Element.fronted : Element → Bool
  | ⟨_, _, children⟩ => Node.allFronted children

def Node.allFronted : List Node → Bool
  | [] => true
  | .element e :: nodes => e.fronted && Node.allFronted nodes
  | .text s :: nodes => hasFront s && Node.allFronted nodes

end

mutual

/-- Whether no two runs in a tree are neighbours. -/
def Element.runsApart : Element → Bool
  | ⟨_, _, children⟩ => Node.allApart false children

/-- Whether this holds for nodes that stand after a run or not. -/
def Node.allApart (afterRun : Bool) : List Node → Bool
  | [] => true
  | .element e :: nodes => e.runsApart && Node.allApart false nodes
  | .text _ :: nodes => !afterRun && Node.allApart true nodes

end

theorem tidy?_of_hasFront (s : String) (h : hasFront s = true) :
    Node.tidy? (.text s) = some (.text s) := by
  cases hs : s.toList with
  | nil => simp [hasFront, hs] at h
  | cons c r =>
    have hc : Text.isBlank c = false := by simpa [hasFront, hs] using h
    have hkeep : Text.trimStart s.toList = s.toList := by
      rw [hs]
      exact Text.trimStart_of_not_blank c r hc
    rw [Node.tidy?, hkeep, String.ofList_toList, if_neg (by simp [hs])]

theorem mergeRuns_text_of_apart (s : String) (nodes : List Node)
    (h : Node.allApart true nodes = true) (hmerge : Node.mergeRuns nodes = nodes) :
    Node.mergeRuns (.text s :: nodes) = .text s :: nodes := by
  rw [Node.mergeRuns, hmerge]
  cases nodes with
  | nil => rfl
  | cons n nodes =>
    cases n with
    | element e => rfl
    | text t => cases h

mutual

theorem normalize_of_runsApart : (e : Element) → e.fronted = true → e.runsApart = true →
    e.normalize = e
  | ⟨tag, attributes, children⟩, hfront, hapart => by
    obtain ⟨heach, hmerge, htidy⟩ := normalizeEach_of_allApart children false hfront hapart
    rw [Element.normalize, heach, hmerge, htidy]

theorem normalizeEach_of_allApart : (nodes : List Node) → (afterRun : Bool) →
    Node.allFronted nodes = true → Node.allApart afterRun nodes = true →
    Node.normalizeEach nodes = nodes ∧ Node.mergeRuns nodes = nodes ∧
      nodes.filterMap Node.tidy? = nodes
  | [], _, _, _ => ⟨rfl, rfl, rfl⟩
  | .element e :: nodes, _, hfront, hapart => by
    simp only [Node.allFronted, Node.allApart, Bool.and_eq_true] at hfront hapart
    have he := normalize_of_runsApart e hfront.1 hapart.1
    obtain ⟨heach, hmerge, htidy⟩ := normalizeEach_of_allApart nodes false hfront.2 hapart.2
    refine ⟨?_, ?_, ?_⟩
    · rw [Node.normalizeEach, he, heach]
    · rw [Node.mergeRuns, hmerge]
    · rw [filterMap_tidy?_cons, htidy]
      rfl
  | .text s :: nodes, _, hfront, hapart => by
    simp only [Node.allFronted, Node.allApart, Bool.and_eq_true] at hfront hapart
    obtain ⟨heach, hmerge, htidy⟩ := normalizeEach_of_allApart nodes true hfront.2 hapart.2
    refine ⟨?_, mergeRuns_text_of_apart s nodes hapart.2 hmerge, ?_⟩
    · rw [Node.normalizeEach, heach]
    · rw [filterMap_tidy?_cons, tidy?_of_hasFront s hfront.1, htidy]
      rfl

end

theorem allApart_of_afterRun (nodes : List Node) (afterRun : Bool)
    (h : Node.allApart true nodes = true) : Node.allApart afterRun nodes = true := by
  cases nodes with
  | nil => rfl
  | cons n nodes =>
    cases n with
    | element e => exact h
    | text s => cases h

theorem allApart_filterMap_tidy? (nodes : List Node) (afterRun : Bool)
    (h : Node.allApart afterRun nodes = true) :
    Node.allApart afterRun (nodes.filterMap Node.tidy?) = true := by
  induction nodes generalizing afterRun with
  | nil => rfl
  | cons n nodes ih =>
    rw [filterMap_tidy?_cons]
    cases n with
    | element e =>
      simp only [Node.allApart, Bool.and_eq_true] at h
      simp only [Node.tidy?, Option.toList, List.singleton_append, Node.allApart, h.1, ih _ h.2,
        Bool.and_self]
    | text s =>
      simp only [Node.allApart, Bool.and_eq_true] at h
      have hrest := ih true h.2
      cases htidy : Node.tidy? (.text s) with
      | none => exact allApart_of_afterRun _ afterRun hrest
      | some m =>
        obtain ⟨t, rfl⟩ : ∃ t, m = .text t := by
          rw [Node.tidy?] at htidy
          split at htidy
          · cases htidy
          · exact ⟨_, (Option.some.inj htidy).symm⟩
        simp only [Option.toList, List.singleton_append, Node.allApart, h.1, hrest, Bool.and_self]

mutual

/-- No two runs of a normal form are neighbours. -/
theorem runsApart_normalize : (e : Element) → e.normalize.runsApart = true
  | ⟨_, _, children⟩ =>
    allApart_filterMap_tidy? _ false (allApart_mergeRuns_normalizeEach children)

theorem allApart_mergeRuns_normalizeEach : (nodes : List Node) →
    Node.allApart false (Node.mergeRuns (Node.normalizeEach nodes)) = true
  | [] => rfl
  | .element e :: nodes => by
    rw [Node.normalizeEach, Node.mergeRuns, Node.allApart, runsApart_normalize e,
      allApart_mergeRuns_normalizeEach nodes, Bool.and_self]
  | .text s :: nodes => by
    have hrest := allApart_mergeRuns_normalizeEach nodes
    rw [Node.normalizeEach, Node.mergeRuns]
    cases hmerged : Node.mergeRuns (Node.normalizeEach nodes) with
    | nil => rfl
    | cons n more =>
      rw [hmerged] at hrest
      cases n with
      | element e => exact hrest
      | text t => exact hrest

end

theorem normalize_eq_self_iff (e : Element) (h : e.fronted = true) :
    e.normalize = e ↔ e.runsApart = true := by
  constructor
  · intro heq
    rw [← heq]
    exact runsApart_normalize e
  · exact normalize_of_runsApart e h

/-! ### Trees that texts denote -/

theorem isName_of_longestName {name rest : List Char} (h : Text.LongestName name rest) :
    isName (String.ofList name) = true := by
  simp only [isName, String.toList_ofList, Bool.and_eq_true, Bool.not_eq_true',
    List.isEmpty_eq_false_iff, List.all_eq_true]
  exact ⟨h.nonempty, h.letters⟩

theorem isName_of_mem_pairs {text : List Char} {pairs : List (String × String)}
    (h : AttributesText text pairs) : ∀ pair ∈ pairs, isName pair.1 = true := by
  induction h with
  | nil => exact fun _ hpair => absurd hpair List.not_mem_nil
  | cons name value blanks rest q pairs hname _ _ _ _ ih =>
    intro pair hpair
    rcases List.mem_cons.1 hpair with rfl | hpair
    · exact isName_of_longestName hname
    · exact ih pair hpair

theorem all_isName_attributeTable {text : List Char} {pairs : List (String × String)}
    (h : AttributesText text pairs) : (attributeTable pairs).keys.all isName = true := by
  apply List.all_eq_true.2
  intro name hname
  have hsome := (Dict.lookup_isSome_iff name _).2 hname
  obtain ⟨value, hvalue⟩ := Option.isSome_iff_exists.1 hsome
  have hlast := (Dict.find?_ofList _ name).symm.trans hvalue
  have hmem := Dict.mem_of_lastOf? name value _ hlast
  obtain ⟨pair, hpair, heq⟩ := List.mem_map.1 hmem
  obtain rfl : pair.1 = name := congrArg Prod.fst heq
  exact isName_of_mem_pairs h pair hpair

/-- Decoding leaves something other than a blank in front: no entity stands for a blank. -/
theorem front_decode (s : List Char) (h : (s.head?.any fun c => !Text.isBlank c) = true) :
    ((Entity.decode s).head?.any fun c => !Text.isBlank c) = true := by
  fun_cases Entity.decode s with
  | case7 c r => exact h
  | case8 => exact h
  | _ => rfl

theorem hasFront_unescape {run rest : List Char} (h : LongestRun run rest) :
    hasFront (Entity.unescape (String.ofList run)) = true := by
  rw [hasFront, Entity.unescape, String.toList_ofList, String.toList_ofList]
  apply front_decode
  cases run with
  | nil => exact absurd rfl h.nonempty
  | cons c r =>
    have hc : Text.isBlank c = false := Text.head_of_stopsAt _ c r h.front
    simp [hc]

mutual

/-- A tree that a text denotes has names of the markup language, and its runs have fronts. -/
theorem wellNamed_of_elementText (s : List Char) (e : Element) :
    ElementText s e → e.wellNamed = true ∧ e.fronted = true
  | .empty name blanks attributes pairs hname _ hattributes => by
    refine ⟨?_, rfl⟩
    rw [Element.wellNamed, isName_of_longestName hname, all_isName_attributeTable hattributes]
    rfl
  | .full name blanks attributes inner pairs children hname _ hattributes hchildren => by
    obtain ⟨hnames, hfronts⟩ := allWellNamed_of_childrenText inner children hchildren
    refine ⟨?_, hfronts⟩
    rw [Element.wellNamed, isName_of_longestName hname, all_isName_attributeTable hattributes,
      hnames]
    rfl

theorem allWellNamed_of_childrenText (s : List Char) (nodes : List Node) :
    ChildrenText s nodes → Node.allWellNamed nodes = true ∧ Node.allFronted nodes = true
  | .nil => ⟨rfl, rfl⟩
  | .blank _ rest nodes _ h => allWellNamed_of_childrenText rest nodes h
  | .comment _ rest nodes _ h => allWellNamed_of_childrenText rest nodes h
  | .element text rest e nodes he h => by
    obtain ⟨hname, hfront⟩ := wellNamed_of_elementText text e he
    obtain ⟨hnames, hfronts⟩ := allWellNamed_of_childrenText rest nodes h
    rw [Node.allWellNamed, Node.allFronted, hname, hfront, hnames, hfronts]
    exact ⟨rfl, rfl⟩
  | .run run rest nodes hrun h => by
    obtain ⟨hnames, hfronts⟩ := allWellNamed_of_childrenText rest nodes h
    rw [Node.allWellNamed, Node.allFronted, hasFront_unescape hrun, hnames, hfronts]
    exact ⟨rfl, rfl⟩

end

/-! ### Parsing again -/

theorem documentText_of_outcome (source : String) (root : Element)
    (h : (parse .lenient source).outcome = .ok root) :
    DocumentText (Text.trim source.toList) root := by
  have hfailure : (readFrom .start (Text.trim source.toList)).failure = none := by
    rw [outcome_parse_lenient] at h
    split at h
    · cases h
    · assumption
  obtain ⟨denoted, hdenoted⟩ := documentText_of_readFrom source.toList hfailure
  have hsame := (outcome_parse_of_documentText source denoted hdenoted).symm.trans h
  cases hsame
  exact hdenoted

/-- What a parsed tree is written as is parsed to the normal form of the tree, which is the tree
itself exactly when no two of its runs are neighbours. -/
theorem reparse_toMarkup (source : String) (root : Element)
    (h : (parse .lenient source).outcome = .ok root) :
    (parse .lenient root.toMarkup).outcome = .ok root.normalize ∧
      (root.normalize = root ↔ root.runsApart = true) := by
  obtain ⟨helement, hname, hdepth⟩ := documentText_of_outcome source root h
  obtain ⟨hnames, hfronts⟩ := wellNamed_of_elementText _ root helement
  refine ⟨?_, normalize_eq_self_iff root hfronts⟩
  have htext := elementText_write root hnames
  apply outcome_parse_of_documentText
  rw [Element.toMarkup, String.toList_ofList, trim_of_elementText _ _ htext]
  refine ⟨htext, ?_, ?_⟩
  · rw [tag_normalize]
    exact hname
  · rw [depth_normalize]
    exact hdepth

/-- A document whose text is divided by a comment. -/
def dividedText : String := "<App>a<!-- -->b</App>"

def dividedTree : Element := ⟨rootName, ∅, [.text "a", .text "b"]⟩

theorem parse_dividedText : (parse .lenient dividedText).outcome = .ok dividedTree :=
  Checked.eq_ok_of_toOption _ _ (by decide +kernel)

theorem reparse_dividedTree :
    (parse .lenient dividedText).outcome = .ok dividedTree ∧
      (parse .lenient dividedTree.toMarkup).outcome = .ok ⟨rootName, ∅, [.text "ab"]⟩ := by
  have hagain := (reparse_toMarkup dividedText dividedTree parse_dividedText).1
  have hjoined : dividedTree.normalize = ⟨rootName, ∅, [.text "ab"]⟩ := by decide
  rw [hjoined] at hagain
  exact ⟨parse_dividedText, hagain⟩

/-- A parsed tree need not come back: a comment between two runs is lost when they are written. -/
theorem exists_reparse_toMarkup_ne :
    ∃ source root, (parse .lenient source).outcome = .ok root ∧
      (parse .lenient root.toMarkup).outcome ≠ .ok root := by
  refine ⟨dividedText, dividedTree, parse_dividedText, ?_⟩
  intro hsame
  have hagain : (parse .lenient dividedTree.toMarkup).outcome.toOption =
      some ⟨rootName, ∅, [.text "ab"]⟩ := by decide +kernel
  rw [hsame] at hagain
  exact absurd (Option.some.inj hagain) (by decide)

end FrameUI.Markup
