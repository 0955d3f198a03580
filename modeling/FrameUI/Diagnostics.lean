import FrameUI.Text.Blank

/-!
# Diagnostics

What the library has to say about its work is returned as a list of log records beside
the answer. A `Logged` value carries the records written while it was computed, in order;
a `Checked` value may also stop early with an error, and then keeps the records written
before it stopped.
-/

namespace FrameUI

/-- How severe a record is, the most severe first. -/
inductive Level where
  | error | warn | info | debug | trace
deriving DecidableEq, Repr

namespace Level

def name : Level → String
  | error => "ERROR"
  | warn => "WARN"
  | info => "INFO"
  | debug => "DEBUG"
  | trace => "TRACE"

/-- The number of levels that are more severe. -/
def rank : Level → Nat
  | error => 0
  | warn => 1
  | info => 2
  | debug => 3
  | trace => 4

/-- Whether a record of this level passes when `limit` is the least severe level kept. -/
def within (level limit : Level) : Bool := decide (level.rank ≤ limit.rank)

end Level

/-- One log record: its level, the part of the library that wrote it, and its text. -/
structure Record where
  level : Level
  source : String
  message : String
deriving DecidableEq, Repr

namespace Record

/-- The record as it is appended to a log file, without the final newline. -/
def line (r : Record) : String := s!"[{r.level.name}] {r.source}: {r.message}"

/-- The lines of a log file that the record makes up: a newline in the message starts
another line. -/
def lines (r : Record) : List String :=
  (Text.splitOn (· == '\n') r.line.toList).map String.ofList

end Record

/-- A value with the records written while it was computed. -/
structure Logged (α : Type) where
  records : List Record
  value : α

namespace Logged

instance : Monad Logged where
  pure a := ⟨[], a⟩
  bind x f := ⟨x.records ++ (f x.value).records, (f x.value).value⟩

def write (level : Level) (source message : String) : Logged Unit :=
  ⟨[⟨level, source, message⟩], ()⟩

@[simp] theorem records_pure {α : Type} (a : α) : (pure a : Logged α).records = [] := rfl

@[simp] theorem value_pure {α : Type} (a : α) : (pure a : Logged α).value = a := rfl

@[simp] theorem records_bind {α β : Type} (x : Logged α) (f : α → Logged β) :
    (x >>= f).records = x.records ++ (f x.value).records := rfl

@[simp] theorem value_bind {α β : Type} (x : Logged α) (f : α → Logged β) :
    (x >>= f).value = (f x.value).value := rfl

theorem ext_parts {α : Type} (x y : Logged α) (hr : x.records = y.records)
    (hv : x.value = y.value) : x = y := by
  cases x
  cases y
  simp_all

instance : LawfulMonad Logged := LawfulMonad.mk' Logged
  (fun x => ext_parts _ _ (List.append_nil x.records) rfl)
  (fun _ _ => rfl)
  (fun x f g => ext_parts _ _ (List.append_assoc x.records (f x.value).records
    (g (f x.value).value).records) rfl)

end Logged

abbrev Checked (ε : Type) := ExceptT ε Logged

namespace Checked

variable {ε α : Type}

/-- The records written, whether or not the computation stopped early. -/
def records (x : Checked ε α) : List Record := (ExceptT.run x).records

def outcome (x : Checked ε α) : Except ε α := (ExceptT.run x).value

def mapError {ε' : Type} (f : ε → ε') (x : Checked ε α) : Checked ε' α :=
  ExceptT.adapt f x

end Checked
end FrameUI
