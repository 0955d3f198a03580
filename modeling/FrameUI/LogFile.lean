import FrameUI.FileTree

/-!
# Log files

Logging begins with opening a file to append to, and then installs a logger, of which there can be
only one. How files are opened is up to the system. Main statement: what it takes to install a
logger, and which failure is told if both steps would fail.
-/

namespace FrameUI

/-- How a system opens files to append to: it opens the file at a path, or says why not. -/
structure Opening where
  opens : String → Except String Unit

/-- The files that are found on every system. -/
def Opening.standard : Opening :=
  ⟨fun path => (openForAppending .standard path).mapError OpenError.message⟩

inductive LogFileError where
  | unopenable (reason : String)
  | alreadyInstalled
deriving DecidableEq, Repr

def LogFileError.message : LogFileError → String
  | unopenable reason => s!"I/O error: {reason}"
  | alreadyInstalled => "a logger is already installed"

/-- Opens a log file and installs a logger for it, unless there is one. -/
def installLogger (opening : Opening) (installed : Bool) (path : String) :
    Except LogFileError Unit :=
  match opening.opens path with
  | .error reason => .error (.unopenable reason)
  | .ok () => if installed then .error .alreadyInstalled else .ok ()

/-- A logger is installed where the file is opened and there is none. A file that is not opened is
told first, with the reason of the system. -/
theorem installLogger_cases (opening : Opening) (installed : Bool) (path : String) :
    (installLogger opening installed path = .ok () ↔
        opening.opens path = .ok () ∧ installed = false) ∧
      (installLogger opening installed path = .error .alreadyInstalled ↔
        opening.opens path = .ok () ∧ installed = true) ∧
      ∀ reason, installLogger opening installed path = .error (.unopenable reason) ↔
        opening.opens path = .error reason := by
  unfold installLogger
  cases opening.opens path with
  | error reason => simp
  | ok _ => cases installed <;> simp

end FrameUI
