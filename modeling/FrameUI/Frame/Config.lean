import FrameUI.Number.Single
import FrameUI.Validation

/-!
# Settings

The behaviour flags of windows and the settings of a renderer.
-/

namespace FrameUI.Frame

/-- Behaviour flags of windows as bits. Bits without a meaning are kept. -/
structure WindowFlags where
  bits : UInt32
deriving DecidableEq, Repr

namespace WindowFlags

/-- The flags with a meaning, with their bits. -/
def named : List (String × UInt32) :=
  [("NO_TITLE_BAR", 1), ("NO_RESIZE", 2), ("NO_MOVE", 4), ("NO_SCROLLBAR", 8),
    ("NO_COLLAPSE", 32), ("ALWAYS_AUTO_RESIZE", 64)]

def none : WindowFlags := ⟨0⟩

/-- Every flag with a meaning. -/
def all : WindowFlags := ⟨named.foldl (fun acc flag => acc ||| flag.2) 0⟩

def inter (a b : WindowFlags) : WindowFlags := ⟨a.bits &&& b.bits⟩

def union (a b : WindowFlags) : WindowFlags := ⟨a.bits ||| b.bits⟩

def contains (a b : WindowFlags) : Bool := a.inter b == b

def meaningful (a : WindowFlags) : WindowFlags := a.inter all

def isExact (a : WindowFlags) : Bool := all.contains a

def isAll (a : WindowFlags) : Bool := a.contains all

def names (a : WindowFlags) : List String :=
  (named.filter fun flag => a.contains ⟨flag.2⟩).map Prod.fst

end WindowFlags

structure Config where
  /-- How failed checks on markup and stylesheets are treated. -/
  validation : ValidationMode := .lenient
  /-- The buffer capacity handed to text inputs. -/
  inputCapacity : Nat := 256
  /-- For how many frames the state of a widget outlives its last reading. -/
  graceFrames : Nat := 10
  /-- The height of a window whose style sets only a width. -/
  defaultWindowHeight : Single := .ofNat 200
  windowFlags : WindowFlags := .none
deriving DecidableEq, Repr

def Config.validator (c : Config) : Validator := ⟨c.validation⟩

end FrameUI.Frame
