/-!
# Properties

The properties that stylesheets may set and how the text of a value is understood for each.
The kind goes by the name alone, so an unlisted property has a kind as well.
-/

namespace FrameUI.Style

/-- The properties a stylesheet may set without a warning. -/
def knownProperties : List String :=
  ["color", "text-color", "background-color", "button-color", "button-color-hover",
    "button-color-active", "widget-background-color", "widget-background-color-hover",
    "widget-background-color-active", "frame-background-color", "window-background-color",
    "width", "height", "padding", "margin", "font-size", "font-family", "border-radius",
    "opacity", "content"]

def isKnownProperty (name : String) : Bool := knownProperties.contains name

inductive PropertyKind where
  | color | number | opacity | text
deriving DecidableEq, Repr

/-- The endings that make a property a colour. -/
def colorEndings : List String := ["-color", "-color-hover", "-color-active"]

def numberProperties : List String :=
  ["width", "height", "padding", "margin", "font-size", "border-radius"]

def PropertyKind.ofName (name : String) : PropertyKind :=
  if name = "color" ∨ colorEndings.any (fun ending => ending.toList.isSuffixOf name.toList) then
    .color
  else if numberProperties.contains name then .number
  else if name = "opacity" then .opacity
  else .text

/-- The properties whose value strict validation requires to be a colour. -/
def checkedColors : List String := ["text-color", "button-color", "widget-background-color"]

end FrameUI.Style
