import FrameUI.Diagnostics
import FrameUI.Markup.Tag
import FrameUI.Number.Numeral
import FrameUI.Text.Name

/-!
# Validation

A validator compares names and values with fixed lists and shapes: tags with the known
tags, attributes with the list of their tag, event attributes with the shape of a handler
name, four numeric attributes with numbers, and text with three dangerous protocols. A
check that fails is a warning in lenient mode and an error in strict mode; a check that
passes leaves no trace in either.
-/

namespace FrameUI

inductive ValidationMode where
  | lenient | strict
deriving DecidableEq, Repr

inductive ValidationCode where
  | tag | attributeName | attributeValue | textContent | styleProperty | styleColor
deriving DecidableEq, Repr

/-- The name by which messages refer to the kind of check. -/
def ValidationCode.name : ValidationCode → String
  | tag => "INVALID_TAG"
  | attributeName => "INVALID_ATTRIBUTE"
  | attributeValue => "INVALID_ATTRIBUTE_VALUE"
  | textContent => "INVALID_TEXT_CONTENT"
  | styleProperty => "INVALID_TSS_PROPERTY"
  | styleColor => "INVALID_TSS_COLOR"

/-- A check that failed in strict mode, with a description of the place. -/
structure ValidationError where
  code : ValidationCode
  detail : String
  context : String
deriving DecidableEq, Repr

def ValidationError.message (e : ValidationError) : String :=
  s!"security validation failed [{e.code.name}]: {e.detail}"

/-! ### Names -/

/-- Attribute names that always carry a handler name. -/
def eventAttributes : List String := ["onClick", "onChange", "onInput", "onFocus", "onBlur"]

/-- Whether an attribute carries a handler name: `on` followed by a capital letter. -/
def carriesHandler (name : String) : Bool :=
  eventAttributes.contains name ||
    match name.toList with
    | 'o' :: 'n' :: c :: _ => c.isUpper
    | _ => false

/-- Whether a value can name a handler: a letter or `_`, then letters, digits and `_`. -/
def canNameHandler (value : String) : Bool :=
  match value.toList with
  | [] => false
  | c :: r =>
    (c.isAlpha || c == '_') && r.all fun d => Text.isAlphanumeric d || d == '_'

/-- The attributes that every tag accepts. -/
def globalAttributes : List String := ["id", "class"]

/-- The attributes that one tag accepts besides the global ones. -/
def allowedAttributes : Markup.Tag → List String
  | .window => ["title", "width", "height"]
  | .text => ["color", "content", "className"]
  | .button => ["onClick", "width", "color"]
  | .inputText => ["label", "hint", "value", "onChange", "width"]
  | .sliderFloat => ["label", "min", "max", "value", "onChange", "width"]
  | .checkbox => ["label", "checked", "onChange", "width"]
  | .sameLine => ["offset", "spacing"]
  | .app | .head | .body | .spacing | .separator | .unknown => []

def isAllowedAttribute (tag name : String) : Bool :=
  globalAttributes.contains name || (allowedAttributes (.ofName tag)).contains name

/-- The beginnings by which text could smuggle in a script. -/
def dangerousProtocols : List String := ["javascript:", "data:", "vbscript:"]

/-- Whether a text mentions a dangerous protocol, in capital or small letters. -/
def isDangerous (text : List Char) : Bool :=
  dangerousProtocols.any fun protocol => Text.occursIn protocol.toList (Text.lowered text)

/-- What the value of an attribute has to be, and whether a value is that; `none` for an
attribute whose value is free. -/
def expectedValue? (name value : String) : Option (Bool × String) :=
  if carriesHandler name then
    some (canNameHandler value, "a handler name ([A-Za-z_][A-Za-z0-9_]*)")
  else if name = "width" ∨ name = "height" then
    some ((Single.ofFront? value).any (Single.zero.le ·), "a non-negative number")
  else if name = "min" ∨ name = "max" then
    some ((Single.ofFront? value).isSome, "a number")
  else none

/-! ### The validator -/

structure Validator where
  mode : ValidationMode
deriving DecidableEq, Repr

namespace Validator

def lenient : Validator := ⟨.lenient⟩
def strict : Validator := ⟨.strict⟩

instance : Inhabited Validator := ⟨lenient⟩

def isStrict (v : Validator) : Bool := v.mode == .strict

/-- Where the warnings of a lenient validator come from. -/
def source : String := "txml::security"

/-- Treats the result of a check by the mode. -/
def judge (v : Validator) (passed : Bool) (code : ValidationCode) (detail context : String) :
    Checked ValidationError Unit :=
  if passed then pure ()
  else match v.mode with
    | .lenient => ExceptT.lift (Logged.write .warn source s!"[{code.name}] {detail}")
    | .strict => throw ⟨code, detail, context⟩

def tag (v : Validator) (name : String) : Checked ValidationError Markup.Tag := do
  let tag := Markup.Tag.ofName name
  v.judge tag.isKnown .tag s!"Unknown tag: {name}" s!"tag={name}"
  pure tag

/-- Checks an attribute name; the answer tells whether it is on the list of its tag. -/
def attributeName (v : Validator) (tag name : String) : Checked ValidationError Bool := do
  let known := isAllowedAttribute tag name
  v.judge known .attributeName s!"Unknown attribute: {name} for tag {tag}"
    s!"tag={tag} attribute={name}"
  pure known

def attributeValue (v : Validator) (name value : String) : Checked ValidationError Unit :=
  match expectedValue? name value with
  | none => pure ()
  | some (passed, expectation) =>
    v.judge passed .attributeValue s!"Attribute '{name}' must be {expectation}, got '{value}'"
      s!"attribute={name} value={value}"

def text (v : Validator) (run : String) : Checked ValidationError Unit :=
  v.judge (!isDangerous run.toList) .textContent
    "Text content contains a potentially dangerous protocol" s!"text={run}"

end Validator
end FrameUI
