import FrameUI.Style.Sheet
import FrameUI.Style.Value

/-!
# The cascade

The style of an element comes from the rules that match it, weakest first: by specificity,
and among equals by source order. Each declaration replaces an earlier one of the same
property, after the variables of the whole sheet have been put into its text and the text
has been understood by the kind of the property.
-/

namespace FrameUI.Style

/-- The rules that match an element, the weakest first. -/
def Sheet.rulesFor (sheet : Sheet) (e : Markup.Element)
    (ancestors : List Markup.Element) : List Rule :=
  (sheet.rules.filter fun r => r.selector.matchesElement e ancestors).mergeSort
    fun a b => decide (a.specificity ≤ b.specificity)

def applyDeclaration (vars : Bindings) (style : ComputedStyle) (property raw : String) :
    Logged ComputedStyle := do
  let text ← substitute vars raw
  let value ← StyleValue.ofText property text
  pure (style.insert property value)

def applyDeclarations (vars : Bindings) :
    ComputedStyle → List (String × String) → Logged ComputedStyle
  | style, [] => pure style
  | style, (property, raw) :: rest => do
    let next ← applyDeclaration vars style property raw
    applyDeclarations vars next rest

/-- The style of an element under its ancestors, which go from the root inwards. -/
def Sheet.styleOf (sheet : Sheet) (e : Markup.Element)
    (ancestors : List Markup.Element) : Logged ComputedStyle :=
  applyDeclarations (.ofTable sheet.definitions) ∅
    ((sheet.rulesFor e ancestors).flatMap fun r => r.properties.entries)

end FrameUI.Style
