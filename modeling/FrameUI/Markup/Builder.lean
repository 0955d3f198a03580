import FrameUI.Markup.Element
import FrameUI.Validation

/-!
# Building elements in code

A builder assembles one element under a validator and keeps the first error: once a check
has failed, later steps change nothing. In lenient mode a value given to an attribute that
is not on the list of its tag is not lost: such values are collected, in order and with
spaces between them, under one name of their own. A `Blueprint` is a whole tree of steps,
each node under its own validator.
-/

namespace FrameUI.Markup

/-- The attribute that collects the values of unlisted attributes. -/
def unknownAttribute : String := "unknown-attr"

/-- An element under construction and the first error, if a check has failed. -/
structure Builder where
  element : Element
  validator : Validator
  error : Option ValidationError

namespace Builder

def new (v : Validator) (tag : String) : Logged Builder := do
  match ← (v.tag tag).run with
  | .ok _ => pure ⟨.ofTag tag, v, none⟩
  | .error e => pure ⟨.ofTag tag, v, some e⟩

/-- Adds a value to those collected for unlisted attributes. -/
def collect (e : Element) (value : String) : Element :=
  match e.attribute? unknownAttribute with
  | some joined => e.withAttribute unknownAttribute s!"{joined} {value}"
  | none => e.withAttribute unknownAttribute value

/-- Runs a check and continues with the element it gives, or records its error. -/
def extend (b : Builder) (check : Checked ValidationError Element) : Logged Builder :=
  match b.error with
  | some _ => pure b
  | none => do
    match ← check.run with
    | .ok e => pure { b with element := e }
    | .error e => pure { b with error := some e }

def give (b : Builder) (name value : String) : Logged Builder :=
  b.extend do
    if ← b.validator.attributeName b.element.tag name then
      b.validator.attributeValue name value
      pure (b.element.withAttribute name value)
    else pure (collect b.element value)

def handler (b : Builder) (event name : String) : Logged Builder := b.give event name

def text (b : Builder) (run : String) : Logged Builder :=
  b.extend do
    b.validator.text run
    pure (b.element.withText run)

def build (b : Builder) : Except ValidationError Element :=
  match b.error with
  | some e => .error e
  | none => .ok b.element

/-- Appends a finished child; the error of the child becomes the error of its parent. -/
def child (b c : Builder) : Logged Builder :=
  b.extend do
    let e ← ExceptT.mk (pure c.build)
    pure (b.element.withChild e)

end Builder

/-! ### Whole trees -/

mutual

inductive BuildStep where
  | give (name value : String)
  | text (run : String)
  | child (node : Blueprint)

/-- A tag, the validator of the node and the steps on it in order. -/
structure Blueprint where
  tag : String
  validator : Validator
  steps : List BuildStep

end

mutual

/-- Starts a builder for a node and takes its steps. A child is built before it is attached,
also when its parent has already failed. -/
def Blueprint.construct : Blueprint → Logged Builder
  | ⟨tag, v, steps⟩ => do
    let b ← Builder.new v tag
    BuildStep.takeAll b steps

def BuildStep.take (b : Builder) : BuildStep → Logged Builder
  | .give name value => b.give name value
  | .text run => b.text run
  | .child node => do
    let c ← node.construct
    b.child c

def BuildStep.takeAll (b : Builder) : List BuildStep → Logged Builder
  | [] => pure b
  | s :: ss => do
    let next ← s.take b
    BuildStep.takeAll next ss

end

def Blueprint.build (p : Blueprint) : Checked ValidationError Element := do
  let b ← ExceptT.lift p.construct
  ExceptT.mk (pure b.build)

end FrameUI.Markup
