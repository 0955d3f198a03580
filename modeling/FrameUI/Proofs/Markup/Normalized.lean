import FrameUI.Proofs.Markup.Grammar

/-!
# Normal trees

Markup does not tell neighbouring runs of text apart, and it does not keep the blanks at the
front of a run. The normal form of a tree forgets the same: neighbouring runs are joined, a
joined run loses its leading blanks, and a run without anything else vanishes. Main
statement: a normal form is as deep as its tree.
-/

namespace FrameUI.Markup

/-- The nodes with neighbouring runs of text joined. -/
def Node.mergeRuns : List Node → List Node
  | [] => []
  | .element e :: nodes => .element e :: mergeRuns nodes
  | .text s :: nodes =>
    match mergeRuns nodes with
    | .text t :: more => .text (s ++ t) :: more
    | more => .text s :: more

/-- A node without leading blanks; nothing is left of a run of blanks. -/
def Node.tidy? : Node → Option Node
  | .element e => some (.element e)
  | .text s =>
    if (Text.trimStart s.toList).isEmpty then none
    else some (.text (String.ofList (Text.trimStart s.toList)))

mutual

/-- The normal form of a tree. -/
def Element.normalize : Element → Element
  | ⟨tag, attributes, children⟩ =>
    ⟨tag, attributes, (Node.mergeRuns (Node.normalizeEach children)).filterMap Node.tidy?⟩

/-- The nodes with every element among them in normal form. -/
def Node.normalizeEach : List Node → List Node
  | [] => []
  | .element e :: nodes => .element e.normalize :: Node.normalizeEach nodes
  | .text s :: nodes => .text s :: Node.normalizeEach nodes

end

/-- Whether a string is a nonempty run of name characters. -/
def isName (s : String) : Bool := !s.toList.isEmpty && s.toList.all Text.isNameChar

mutual

/-- Whether every tag and attribute name in a tree is a name of the markup language. -/
def Element.wellNamed : Element → Bool
  | ⟨tag, attributes, children⟩ =>
    isName tag && attributes.keys.all isName && Node.allWellNamed children

def Node.allWellNamed : List Node → Bool
  | [] => true
  | .element e :: nodes => e.wellNamed && Node.allWellNamed nodes
  | .text _ :: nodes => Node.allWellNamed nodes

end

/-! ### Joining runs -/

theorem mergeRuns_text_text (s t : String) (nodes : List Node) :
    Node.mergeRuns (.text s :: .text t :: nodes) = Node.mergeRuns (.text (s ++ t) :: nodes) := by
  simp only [Node.mergeRuns]
  cases Node.mergeRuns nodes with
  | nil => rfl
  | cons n more =>
    cases n with
    | element e => rfl
    | text u => simp only [String.append_assoc]

theorem mergeRuns_text_element (s : String) (e : Element) (nodes : List Node) :
    Node.mergeRuns (.text s :: .element e :: nodes) =
      .text s :: .element e :: Node.mergeRuns nodes := rfl

theorem filterMap_tidy?_cons (n : Node) (nodes : List Node) :
    (n :: nodes).filterMap Node.tidy? = (Node.tidy? n).toList ++ nodes.filterMap Node.tidy? := by
  rw [List.filterMap_cons]
  cases Node.tidy? n with
  | none => rfl
  | some m => rfl

/-- An empty run in front changes nothing. -/
theorem tidied_empty_cons (nodes : List Node) :
    (Node.mergeRuns (.text "" :: nodes)).filterMap Node.tidy? =
      (Node.mergeRuns nodes).filterMap Node.tidy? := by
  rw [Node.mergeRuns]
  cases Node.mergeRuns nodes with
  | nil => rfl
  | cons n more =>
    cases n with
    | element e => rfl
    | text t => simp only [String.empty_append]

/-! ### Depth -/

theorem depthAll_mergeRuns (nodes : List Node) :
    Node.depthAll (Node.mergeRuns nodes) = Node.depthAll nodes := by
  induction nodes with
  | nil => rfl
  | cons n nodes ih =>
    cases n with
    | element e =>
      rw [Node.mergeRuns, depthAll_cons, depthAll_cons, ih]
    | text s =>
      rw [depthAll_cons, ← ih, Node.mergeRuns]
      cases Node.mergeRuns nodes with
      | nil => simp only [depthAll_cons, depth_text]
      | cons m more =>
        cases m with
        | element e => simp only [depthAll_cons, depth_text]
        | text t => simp only [depthAll_cons, depth_text, Nat.zero_max]

theorem depthAll_filterMap_tidy? (nodes : List Node) :
    Node.depthAll (nodes.filterMap Node.tidy?) = Node.depthAll nodes := by
  induction nodes with
  | nil => rfl
  | cons n nodes ih =>
    cases n with
    | element e => rw [List.filterMap_cons, Node.tidy?, depthAll_cons, depthAll_cons, ih]
    | text s =>
      rw [List.filterMap_cons, depthAll_cons, depth_text, Nat.zero_max]
      by_cases hs : (Text.trimStart s.toList).isEmpty = true
      · simp only [Node.tidy?, hs, if_true, ih]
      · simp only [Node.tidy?, hs, Bool.false_eq_true, if_false, depthAll_cons, depth_text,
          Nat.zero_max, ih]

mutual

theorem depth_normalize : (e : Element) → e.normalize.depth = e.depth
  | ⟨tag, attributes, children⟩ => by
    rw [Element.normalize, depth_element, depth_element, depthAll_filterMap_tidy?,
      depthAll_mergeRuns, depthAll_normalizeEach children]

theorem depthAll_normalizeEach : (nodes : List Node) →
    Node.depthAll (Node.normalizeEach nodes) = Node.depthAll nodes
  | [] => rfl
  | .element e :: nodes => by
    rw [Node.normalizeEach, depthAll_cons, depthAll_cons, Node.depth, Node.depth,
      depth_normalize e, depthAll_normalizeEach nodes]
  | .text s :: nodes => by
    rw [Node.normalizeEach, depthAll_cons, depthAll_cons, depthAll_normalizeEach nodes]

end

end FrameUI.Markup
