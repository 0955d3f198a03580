import FrameUI.Markup.Element
import FrameUI.Markup.Entity

/-!
# Written markup

The compact text of a tree: attributes in the order of their names, values and runs with
entities, and an element without children as a single tag that closes itself.
-/

namespace FrameUI.Markup

/-- The attributes of an opening tag, each after one space. -/
def writeAttributes (entries : List (String × String)) : List Char :=
  entries.flatMap fun (name, value) =>
    ' ' :: (name.toList ++ ['=', Entity.quote] ++ Entity.encode value.toList ++ [Entity.quote])

mutual

def Element.write : Element → List Char
  | ⟨tag, attributes, []⟩ =>
    '<' :: (tag.toList ++ writeAttributes attributes.entries ++ [' ', '/', '>'])
  | ⟨tag, attributes, child :: children⟩ =>
    '<' :: (tag.toList ++ writeAttributes attributes.entries ++ '>' ::
      (child.write ++ Node.writeAll children ++ ['<', '/'] ++ tag.toList ++ ['>']))

def Node.write : Node → List Char
  | .element e => e.write
  | .text run => Entity.encode run.toList

/-- The texts of several nodes, one directly after the other. -/
def Node.writeAll : List Node → List Char
  | [] => []
  | n :: ns => n.write ++ Node.writeAll ns

end

def Element.toMarkup (e : Element) : String := String.ofList e.write

end FrameUI.Markup
