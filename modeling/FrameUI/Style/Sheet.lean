import FrameUI.Style.Selector
import FrameUI.Style.Variables

/-!
# Stylesheets

A rule is a selector with the values it declares, and a sheet is a table of variables with
the rules in source order. The values of a rule are texts: the variables that were known
where the rule stands have been put in, and others may follow later.
-/

namespace FrameUI.Style

/-- A selector with its declarations, of which the last for each property counts. -/
structure Rule where
  selectorText : String
  selector : Selector
  properties : Dict String
deriving DecidableEq

def Rule.specificity (r : Rule) : UInt32 := r.selector.specificity.score

structure Sheet where
  definitions : Variables
  rules : List Rule
deriving DecidableEq

def Sheet.empty : Sheet := ⟨∅, []⟩

instance : Inhabited Sheet := ⟨Sheet.empty⟩

end FrameUI.Style
