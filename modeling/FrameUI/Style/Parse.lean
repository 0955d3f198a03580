import FrameUI.Style.Reading
import FrameUI.Style.Sheet
import FrameUI.Style.Value
import FrameUI.Text.Position
import FrameUI.Validation

/-!
# Parsing stylesheets

The marks of a text are taken into a sheet one by one. Variables are put into a value where
it is declared: inside a scope those of the scope so far come first, and the global ones
after them; when a scope closes its variables become global. The validator looks at the
name of a declared property and, in strict mode, at three properties that have to be
colours.
-/

namespace FrameUI.Style

/-! ### Errors -/

inductive SheetError where
  | malformed (cause : Cause) (position : Text.Position)
  | rejected (error : ValidationError)
deriving DecidableEq, Repr

def SheetError.message : SheetError → String
  | malformed cause position =>
    s!"TSS syntax error at line {position.line}, column {position.column}: {cause.message}"
  | rejected error => error.message

/-! ### Taking in marks -/

/-- A sheet under construction: what is finished, the variables of the open scope, and the
open rule. -/
structure Draft where
  sheet : Sheet
  scope : Option Variables
  rule : Option Rule

namespace Draft

def empty : Draft := ⟨.empty, none, none⟩

/-- The variables that are visible to a declaration. -/
def bindings (d : Draft) : Bindings :=
  match d.scope with
  | none => .ofTable d.sheet.definitions
  | some inner => .layered d.sheet.definitions inner

/-- The checks on a declaration whose variables have been put in. -/
def check (v : Validator) (name value : String) : Checked ValidationError Unit := do
  v.judge (isKnownProperty name) .styleProperty s!"TSS property '{name}' is not allowed"
    s!"property={name}"
  if v.isStrict && checkedColors.contains name then
    v.judge (Rgba.ofText value).isOk .styleColor s!"Invalid color format '{value}' for '{name}'"
      s!"property={name} value={value}"

def take (v : Validator) (d : Draft) : Mark → Checked ValidationError Draft
  | .ruleOpened text selector => pure { d with rule := some ⟨text, selector, ∅⟩ }
  | .declared name raw => do
    let value ← ExceptT.lift (substitute d.bindings raw)
    check v name value
    pure { d with rule := d.rule.map fun r =>
      { r with properties := r.properties.insert name value } }
  | .ruleClosed =>
    pure { d with
      sheet := { d.sheet with rules := d.sheet.rules ++ d.rule.toList }
      rule := none }
  | .scopeOpened => pure { d with scope := some ∅ }
  | .defined name raw => pure { d with scope := d.scope.map fun inner => inner.insert name raw }
  | .scopeClosed =>
    pure { d with
      sheet := { d.sheet with definitions := d.sheet.definitions.merge (d.scope.getD ∅) }
      scope := none }

def takeAll (v : Validator) : Draft → List Mark → Checked ValidationError Draft
  | d, [] => pure d
  | d, m :: ms => do
    let next ← d.take v m
    takeAll v next ms

end Draft

/-! ### Parsing -/

def parserSource : String := "tss::parser"

/-- Parses a source. Validation errors come before a failure further on. -/
def parse (v : Validator) (source : String) : Checked SheetError Sheet := do
  let text := source.toList
  let reading := read text
  let draft ← Checked.mapError .rejected (Draft.empty.takeAll v reading.marks)
  match reading.failure with
  | some f => throw (.malformed f.cause (.ofSuffix text f.rest))
  | none => do
    let sheet := draft.sheet
    ExceptT.lift <| Logged.write .debug parserSource
      s!"TSS: parsed {sheet.rules.length} rules and {sheet.definitions.size} variables"
    pure sheet

/-- Parses a source; an error is logged and leaves no sheet. -/
def parse? (v : Validator) (source : String) : Logged (Option Sheet) := do
  match ← (parse v source).run with
  | .ok sheet => pure (some sheet)
  | .error e =>
    Logged.write .error parserSource s!"TSS parsing failed: {e.message}"
    pure none

end FrameUI.Style
