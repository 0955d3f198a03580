import FrameUI.Markup.Document
import FrameUI.Proofs.Text.Spans

/-!
# The grammar of documents

Which texts are elements, and which tree each of them denotes, said without a reader:

    Element    := '<' Name Blank* Attributes ( '/>' | '>' Children '</' Name '>' )
    Attributes := ( Name '=' Quoted Blank* )*
    Children   := ( Blank | Comment | Element | Text )*

A name is as long as it can be. A comment ends at the first `-->`, so its body holds none.
A text run begins with no blank, holds no `<` and is as long as it can be. Values and runs
are decoded once, the last of several attributes of one name counts, and neither comments
nor the blanks between nodes leave a trace.
-/

namespace FrameUI.Markup

/-! ### Nesting -/

mutual

/-- How many levels of elements an element has, itself included. -/
def Element.depth : Element → Nat
  | ⟨_, _, children⟩ => 1 + Node.depthAll children

/-- How many levels of elements a node has. A run of text has none. -/
def Node.depth : Node → Nat
  | .element e => e.depth
  | .text _ => 0

/-- The most levels among several nodes. -/
def Node.depthAll : List Node → Nat
  | [] => 0
  | n :: ns => max n.depth (Node.depthAll ns)

end

theorem depth_element (tag : String) (attributes : Dict String) (children : List Node) :
    Element.depth ⟨tag, attributes, children⟩ = 1 + Node.depthAll children := by
  rw [Element.depth]

theorem depth_pos (e : Element) : 1 ≤ e.depth := by
  cases e
  rw [depth_element]
  omega

theorem depthAll_cons (n : Node) (ns : List Node) :
    Node.depthAll (n :: ns) = max n.depth (Node.depthAll ns) := by
  rw [Node.depthAll]

theorem depth_text (s : String) : Node.depth (.text s) = 0 := by
  rw [Node.depth]

/-! ### Attributes -/

/-- The characters between which a value may stand. -/
def IsQuote (q : Char) : Prop := q = Entity.quote ∨ q = Entity.apostrophe

/-- Attributes as they are written, each with the blanks after it; the pairs are the names
with the values between the quotes. -/
inductive AttributesText : List Char → List (String × String) → Prop
  | nil : AttributesText [] []
  | cons (name value blanks rest : List Char) (q : Char) (pairs : List (String × String)) :
      Text.LongestName name ('=' :: q :: (value ++ q :: (blanks ++ rest))) →
      IsQuote q → q ∉ value → Text.AllBlank blanks → AttributesText rest pairs →
      AttributesText (name ++ '=' :: q :: (value ++ q :: (blanks ++ rest)))
        ((String.ofList name, String.ofList value) :: pairs)

/-- The table that some written attributes make up. -/
def attributeTable (pairs : List (String × String)) : Dict String :=
  .ofList (pairs.map fun pair => (pair.1, Entity.unescape pair.2))

/-! ### Elements and their children -/

/-- The characters that end a comment. -/
def commentEnd : List Char := ['-', '-', '>']

/-- A text run in front of `rest`. -/
structure LongestRun (run rest : List Char) : Prop where
  nonempty : run ≠ []
  front : Text.StopsAt Text.isBlank run
  plain : '<' ∉ run
  longest : Text.StopsAt (· != '<') rest

mutual

/-- The texts that are an element, each with the tree it denotes. -/
inductive ElementText : List Char → Element → Prop
  | empty (name blanks attributes : List Char) (pairs : List (String × String)) :
      Text.LongestName name (blanks ++ attributes ++ ['/', '>']) →
      Text.AllBlank blanks → AttributesText attributes pairs →
      ElementText ('<' :: (name ++ (blanks ++ attributes ++ ['/', '>'])))
        ⟨String.ofList name, attributeTable pairs, []⟩
  | full (name blanks attributes inner : List Char) (pairs : List (String × String))
      (children : List Node) :
      Text.LongestName name
        (blanks ++ attributes ++ '>' :: (inner ++ '<' :: '/' :: (name ++ ['>']))) →
      Text.AllBlank blanks → AttributesText attributes pairs → ChildrenText inner children →
      ElementText ('<' ::
          (name ++ (blanks ++ attributes ++ '>' :: (inner ++ '<' :: '/' :: (name ++ ['>'])))))
        ⟨String.ofList name, attributeTable pairs, children⟩

/-- The texts that can stand inside an element, each with the children it denotes. -/
inductive ChildrenText : List Char → List Node → Prop
  | nil : ChildrenText [] []
  | blank (c : Char) (rest : List Char) (nodes : List Node) :
      Text.isBlank c = true → ChildrenText rest nodes → ChildrenText (c :: rest) nodes
  | comment (body rest : List Char) (nodes : List Node) :
      Text.occursIn commentEnd body = false → ChildrenText rest nodes →
      ChildrenText ('<' :: '!' :: '-' :: '-' :: (body ++ commentEnd ++ rest)) nodes
  | element (text rest : List Char) (e : Element) (nodes : List Node) :
      ElementText text e → ChildrenText rest nodes →
      ChildrenText (text ++ rest) (.element e :: nodes)
  | run (run rest : List Char) (nodes : List Node) :
      LongestRun run rest → ChildrenText rest nodes →
      ChildrenText (run ++ rest) (.text (Entity.unescape (String.ofList run)) :: nodes)

end

/-- The texts that are a document: an element with the root's name whose nesting keeps to
the limit. -/
structure DocumentText (text : List Char) (root : Element) : Prop where
  element : ElementText text root
  name : root.tag = rootName
  depth : root.depth ≤ maxDepth

end FrameUI.Markup
