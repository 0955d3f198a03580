import FrameUI.Dict
import FrameUI.Markup.Tag
import FrameUI.Text.Blank

/-!
# Element trees

A document is a tree of elements whose children are elements and runs of text in order.
The attributes of an element are a table, so the order in which they were written is
forgotten. An element does not know its parent: whoever walks the tree brings the
ancestors along.
-/

namespace FrameUI.Markup

mutual

inductive Node where
  | element (element : Element)
  | text (run : String)

/-- A tag with its attributes and its children in order. -/
structure Element where
  tag : String
  attributes : Dict String
  children : List Node

end

instance : Inhabited Element := ⟨⟨"", ∅, []⟩⟩

/-! ### Equality of trees -/

mutual

def Element.decEq : (a b : Element) → Decidable (a = b)
  | ⟨s, as, cs⟩, ⟨t, bs, ds⟩ =>
    if ht : s = t then
      if ha : as = bs then
        match Node.decEqs cs ds with
        | isTrue hc => isTrue (by rw [ht, ha, hc])
        | isFalse hc => isFalse fun h => hc (congrArg Element.children h)
      else isFalse fun h => ha (congrArg Element.attributes h)
    else isFalse fun h => ht (congrArg Element.tag h)

def Node.decEq : (a b : Node) → Decidable (a = b)
  | .element a, .element b =>
    match Element.decEq a b with
    | isTrue h => isTrue (by rw [h])
    | isFalse h => isFalse fun he => h (Node.element.inj he)
  | .text s, .text t =>
    if h : s = t then isTrue (by rw [h]) else isFalse fun he => h (Node.text.inj he)
  | .element _, .text _ => isFalse (by simp)
  | .text _, .element _ => isFalse (by simp)

def Node.decEqs : (as bs : List Node) → Decidable (as = bs)
  | [], [] => isTrue rfl
  | [], _ :: _ => isFalse (by simp)
  | _ :: _, [] => isFalse (by simp)
  | a :: as, b :: bs =>
    match Node.decEq a b with
    | isTrue h =>
      match Node.decEqs as bs with
      | isTrue hs => isTrue (by rw [h, hs])
      | isFalse hs => isFalse fun he => hs (List.cons.inj he).2
    | isFalse h => isFalse fun he => h (List.cons.inj he).1

end

instance : DecidableEq Element := Element.decEq
instance : DecidableEq Node := Node.decEq

namespace Node

def element? : Node → Option Element
  | element e => some e
  | text _ => none

def text? : Node → Option String
  | element _ => none
  | text run => some run

end Node

namespace Element

/-! ### Building by hand -/

def ofTag (tag : String) : Element := ⟨tag, ∅, []⟩

def withAttribute (e : Element) (name value : String) : Element :=
  { e with attributes := e.attributes.insert name value }

def withChild (e child : Element) : Element :=
  { e with children := e.children ++ [.element child] }

def withText (e : Element) (run : String) : Element :=
  { e with children := e.children ++ [.text run] }

/-! ### Reading -/

/-- The tag of the language that the element carries. -/
def kind (e : Element) : Tag := Tag.ofName e.tag

def attribute? (e : Element) (name : String) : Option String := e.attributes.find? name

/-- The `id` attribute, unless it is empty. -/
def id? (e : Element) : Option String := (e.attribute? "id").filter fun id => !id.isEmpty

def classes (e : Element) : List String :=
  (Text.words ((e.attribute? "class").getD "").toList).map String.ofList

def hasClass (e : Element) (name : String) : Bool := e.classes.contains name

/-- The text children joined and trimmed. Text inside child elements does not count. -/
def textContent (e : Element) : String :=
  Text.trimmed (String.join (e.children.filterMap Node.text?))

def elements (e : Element) : List Element := e.children.filterMap Node.element?

/-- Whether the element is written without a closing tag. -/
def isSelfClosing (e : Element) : Bool := e.children.isEmpty

end Element
end FrameUI.Markup
