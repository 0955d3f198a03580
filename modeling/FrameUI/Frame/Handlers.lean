import FrameUI.Dict
import FrameUI.Diagnostics
import FrameUI.Text.Literal

/-!
# Event handlers

Markup names the handlers of its events. A registry knows each handler by its name and
keeps the label by which the host recognizes it. To run a handler is to report a firing, on
which the host acts. A handler that nobody has named gets a generated name. Main
statements: what `register` and `dispatch` leave in the table, and when a handler is
missing.
-/

namespace FrameUI.Frame

/-- A registered handler: its label and how often it has run. -/
structure Handler where
  label : String
  runs : Nat
deriving DecidableEq, Repr

/-- One run of a handler: its label, and which of its runs this was, from one. -/
structure Firing where
  label : String
  run : Nat
deriving DecidableEq, Repr

/-- A name under which no handler is registered. -/
structure MissingHandler where
  name : String
deriving DecidableEq, Repr

def MissingHandler.message (e : MissingHandler) : String :=
  s!"no event handler registered for '{e.name}'"

/-- The handlers by name, and the number of the next generated name. -/
structure Handlers where
  table : Dict Handler
  nextGenerated : Nat

namespace Handlers

def empty : Handlers := ⟨∅, 0⟩

instance : EmptyCollection Handlers := ⟨empty⟩
instance : Inhabited Handlers := ⟨empty⟩

def source : String := "trema::handlers"

/-- Registers a handler that has not run yet, in place of any earlier one of its name. -/
def register (hs : Handlers) (name label : String) : Logged Handlers := do
  Logged.write .debug source s!"handlers: registered '{name}'"
  pure { hs with table := hs.table.insert name ⟨label, 0⟩ }

def generatedName (n : Nat) : String := s!"jsx_fn_{n}"

/-- Registers a handler under the next generated name, and returns that name. -/
def registerUnnamed (hs : Handlers) (label : String) : Logged (String × Handlers) := do
  let name := generatedName hs.nextGenerated
  let registered ← { hs with nextGenerated := hs.nextGenerated + 1 }.register name label
  pure (name, registered)

def contains (hs : Handlers) (name : String) : Bool := hs.table.contains name

def remove (hs : Handlers) (name : String) : Handlers :=
  { hs with table := hs.table.erase name }

def size (hs : Handlers) : Nat := hs.table.size

def isEmpty (hs : Handlers) : Bool := hs.table.isEmpty

def dispatch (hs : Handlers) (name : String) : Checked MissingHandler (Firing × Handlers) :=
  match hs.table.find? name with
  | none => throw ⟨name⟩
  | some handler => do
    ExceptT.lift (Logged.write .debug source s!"handlers: dispatching '{name}'")
    let ran := { handler with runs := handler.runs + 1 }
    pure (⟨ran.label, ran.runs⟩, { hs with table := hs.table.insert name ran })

/-! ### The table -/

theorem find?_register (hs : Handlers) (name key label : String) :
    (hs.register name label).value.table.find? key =
      if name = key then some ⟨label, 0⟩ else hs.table.find? key :=
  Dict.find?_insert hs.table name key _

theorem dispatch_of_none (hs : Handlers) (name : String) (h : hs.table.find? name = none) :
    hs.dispatch name = throw ⟨name⟩ := by
  unfold dispatch
  rw [h]

theorem outcome_dispatch_of_some (hs : Handlers) (name : String) (handler : Handler)
    (h : hs.table.find? name = some handler) :
    Checked.outcome (hs.dispatch name) = .ok (⟨handler.label, handler.runs + 1⟩,
      { hs with table := hs.table.insert name { handler with runs := handler.runs + 1 } }) := by
  unfold dispatch
  rw [h]
  rfl

/-- A handler is missing exactly when its name is not registered. -/
theorem outcome_dispatch_isOk (hs : Handlers) (name : String) :
    (Checked.outcome (hs.dispatch name)).isOk = hs.contains name := by
  unfold contains Dict.contains
  cases h : hs.table.find? name with
  | none =>
    rw [dispatch_of_none hs name h]
    rfl
  | some handler =>
    rw [outcome_dispatch_of_some hs name handler h]
    rfl

/-! ### Listing -/

/-- The registry as one line of text: the names in order and the next number. -/
def listing (hs : Handlers) : String :=
  let names := ", ".intercalate (hs.table.keys.map Text.literal)
  s!"HandlerRegistry \x7b handlers: [{names}], next_inline: {hs.nextGenerated} \x7d"

end Handlers
end FrameUI.Frame
