import FrameUI.Diagnostics
import FrameUI.Markup.Element
import FrameUI.Number.Single

/-!
# Widget state

Values that the user changes live here between frames, each under a key. Every reading and
writing stamps the entry with the current frame, and at the end of a frame the entries that
nobody has read for longer than the grace period are dropped. Main statements: what a
look-up finds after `edit`, `read` and `sweep`.
-/

namespace FrameUI.Frame

open FrameUI.Markup (Element)

inductive WidgetValue where
  | text (value : String)
  | float (value : Single)
  | bool (value : Bool)
deriving DecidableEq, Repr

namespace WidgetValue

def text? : WidgetValue → Option String
  | text s => some s
  | _ => none

def float? : WidgetValue → Option Single
  | float x => some x
  | _ => none

def bool? : WidgetValue → Option Bool
  | bool b => some b
  | _ => none

end WidgetValue

/-- An entry: its key, its value and the last frame in which it was read or written. -/
structure StoreEntry where
  id : String
  value : WidgetValue
  lastFrame : Nat
deriving DecidableEq, Repr

/-- The entries by key, the number of the current frame and the grace period. -/
structure Store where
  entries : Dict StoreEntry
  frame : Nat
  grace : Nat

namespace Store

def new (grace : Nat) : Store := ⟨∅, 0, grace⟩

def advance (s : Store) : Logged Store := do
  Logged.write .trace "trema::state" s!"state: begin frame {s.frame + 1}"
  pure { s with frame := s.frame + 1 }

/-- Whether an entry has been read within the grace period. -/
def isFresh (s : Store) (w : StoreEntry) : Bool := decide (s.frame - s.grace ≤ w.lastFrame)

def sweep (s : Store) : Logged Store := do
  let kept := s.entries.filter fun _ w => s.isFresh w
  let dropped := s.entries.size - kept.size
  if 0 < dropped then
    Logged.write .debug "trema::state"
      s!"state: dropped {dropped} stale entries at frame {s.frame}"
  pure { s with entries := kept }

/-- The entry of a key stamped with the current frame; a missing one is created from a
default. -/
def stamped (s : Store) (id : String) (default : WidgetValue) : StoreEntry :=
  match s.entries.find? id with
  | some w => { w with lastFrame := s.frame }
  | none => ⟨id, default, s.frame⟩

/-- Reads an entry: its value, and the store in which it is stamped. -/
def read (s : Store) (id : String) (default : WidgetValue) : WidgetValue × Store :=
  let w := s.stamped id default
  (w.value, { s with entries := s.entries.insert id w })

/-- Reads an entry and changes its value in place. -/
def edit (s : Store) (id : String) (default : WidgetValue)
    (change : WidgetValue → WidgetValue) : Store :=
  let w := s.stamped id default
  { s with entries := s.entries.insert id { w with value := change w.value } }

def write (s : Store) (id : String) (value : WidgetValue) : Store :=
  s.edit id value fun _ => value

/-- The entry of a key as it is, without a stamp. -/
def find? (s : Store) (id : String) : Option StoreEntry := s.entries.find? id

def clear (s : Store) : Store := { s with entries := ∅ }

/-! ### Look-ups -/

theorem find?_edit (s : Store) (id key : String) (default : WidgetValue)
    (change : WidgetValue → WidgetValue) :
    (s.edit id default change).find? key =
      if id = key then
        some { s.stamped id default with value := change (s.stamped id default).value }
      else s.find? key :=
  Dict.find?_insert s.entries id key _

theorem read_eq_edit (s : Store) (id : String) (default : WidgetValue) :
    (s.read id default).2 = s.edit id default fun value => value := rfl

theorem find?_read (s : Store) (id key : String) (default : WidgetValue) :
    (s.read id default).2.find? key =
      if id = key then some (s.stamped id default) else s.find? key := by
  rw [read_eq_edit, find?_edit]

theorem value_stamped_of_find? (s : Store) (id : String) (default : WidgetValue)
    (w : StoreEntry) (h : s.find? id = some w) : (s.stamped id default).value = w.value := by
  have hf : s.entries.find? id = some w := h
  simp [stamped, hf]

theorem lastFrame_stamped (s : Store) (id : String) (default : WidgetValue) :
    (s.stamped id default).lastFrame = s.frame := by
  unfold stamped
  split <;> rfl

theorem sweep_value (s : Store) :
    s.sweep.value = { s with entries := s.entries.filter fun _ w => s.isFresh w } := by
  simp only [sweep]
  split
  · rfl
  · rfl

/-- A sweep keeps exactly the fresh entries. -/
theorem find?_sweep (s : Store) (id : String) :
    s.sweep.value.find? id = (s.find? id).filter s.isFresh := by
  rw [sweep_value]
  exact Dict.find?_filter s.entries (fun _ w => s.isFresh w) id

end Store

/-! ### Keys -/

def tagPath (elements : List Element) : String :=
  "/".intercalate (elements.map Element.tag)

/-- The key under which the state of a widget is kept: its `id` attribute, or else the tags
from the root down to it. -/
def stateKey (e : Element) (ancestors : List Element) : String :=
  e.id?.getD (tagPath (ancestors ++ [e]))

end FrameUI.Frame
