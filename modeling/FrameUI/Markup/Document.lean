import FrameUI.Markup.Element
import FrameUI.Markup.Reading
import FrameUI.Text.Position
import FrameUI.Validation

/-!
# Documents

The events of a text are assembled into a tree on a stack of unfinished elements, the
innermost first. Every tag, attribute and run passes the validator at the event that
brings it, so what is checked first is what stands first. A document that cannot be read
has a fallback tree that shows the error in a window.
-/

namespace FrameUI.Markup

/-! ### Errors -/

inductive DocumentError where
  | malformed (cause : Cause) (position : Text.Position)
  | rejected (error : ValidationError)
deriving DecidableEq, Repr

def Cause.message (position : Text.Position) : Cause → String
  | expectedOpening =>
    s!"expected document to start with '<' at line {position.line}, column {position.column}"
  | expectedToken token =>
    s!"expected {token} at line {position.line}, column {position.column}"
  | emptyName what => s!"empty {what} name at line {position.line}, column {position.column}"
  | unquotedValue =>
    s!"expected quoted attribute value at line {position.line}, column {position.column}"
  | unclosedValue =>
    s!"unclosed attribute value at line {position.line}, column {position.column}"
  | mismatchedClosing expected found =>
    s!"mismatched closing tag: expected </{expected}> but found </{found}>" ++
      s!" at line {position.line}, column {position.column}"
  | wrongRoot found => s!"root element must be <{rootName}>, found <{found}>"
  | tooDeep =>
    s!"elements nested deeper than {maxDepth} levels" ++
      s!" at line {position.line}, column {position.column}"
  | trailingContent =>
    s!"unexpected content after root element at line {position.line}, column {position.column}"

def DocumentError.message : DocumentError → String
  | malformed cause position => cause.message position
  | rejected error => error.message

/-! ### Assembling the tree -/

/-- A tree under construction: the unfinished elements, innermost first, and the root once
it is finished. -/
structure Assembly where
  pending : List Element
  root : Option Element

namespace Assembly

def empty : Assembly := ⟨[], none⟩

/-- Adds a child to the innermost unfinished element. -/
def attach (a : Assembly) (child : Node) : Assembly :=
  match a.pending with
  | [] => a
  | e :: outer => { a with pending := { e with children := e.children ++ [child] } :: outer }

/-- Finishes the innermost element and hands it to the one around it. -/
def close (a : Assembly) : Assembly :=
  match a.pending with
  | [] => a
  | [e] => ⟨[], some e⟩
  | e :: parent :: outer =>
    { a with pending :=
      { parent with children := parent.children ++ [.element e] } :: outer }

/-- Takes in one event, after the checks that belong to it. Attribute values and runs are
checked as they stand in the source and decoded afterwards. A run of blanks is dropped. -/
def take (v : Validator) (a : Assembly) : Event → Checked ValidationError Assembly
  | .opened tag => do
    let _ ← v.tag tag
    pure { a with pending := .ofTag tag :: a.pending }
  | .given name raw =>
    match a.pending with
    | [] => pure a
    | e :: outer => do
      let _ ← v.attributeName e.tag name
      v.attributeValue name raw
      pure { a with pending := e.withAttribute name (Entity.unescape raw) :: outer }
  | .run raw => do
    v.text raw
    if (Text.trim raw.toList).isEmpty then pure a
    else pure (a.attach (.text (Entity.unescape raw)))
  | .closed => pure a.close

def takeAll (v : Validator) : Assembly → List Event → Checked ValidationError Assembly
  | a, [] => pure a
  | a, e :: es => do
    let next ← a.take v e
    takeAll v next es

end Assembly

/-! ### Parsing -/

/-- Parses a source. Validation errors come before a failure further on; positions count
from the first character that is not blank. A reading without failure always leaves a
root. -/
def parse (v : Validator) (source : String) : Checked DocumentError Element := do
  let text := Text.trim source.toList
  let reading := readFrom .start text
  let assembly ← Checked.mapError .rejected (Assembly.empty.takeAll v reading.events)
  match reading.failure with
  | some f => throw (.malformed f.cause (.ofSuffix text f.rest))
  | none => pure (assembly.root.getD default)

/-! ### The fallback -/

/-- The tree shown in place of a document that could not be read. -/
def fallbackTree (e : DocumentError) : Element :=
  let text := (Element.ofTag "Text").withText s!"TXML Parse Error: {e.message}"
  let window := ((Element.ofTag "Window").withAttribute "title" "Error").withChild text
  (Element.ofTag rootName).withChild ((Element.ofTag "Body").withChild window)

/-- Parses a source and falls back to the error tree, after a log record. -/
def parseOrShow (v : Validator) (source : String) : Logged Element := do
  match ← (parse v source).run with
  | .ok root => pure root
  | .error e =>
    Logged.write .error "txml::parser" s!"TXML parse error: {e.message}"
    pure (fallbackTree e)

end FrameUI.Markup
