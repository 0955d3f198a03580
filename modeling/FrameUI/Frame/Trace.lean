import FrameUI.Diagnostics

/-!
# Traces

While a frame is drawn its calls are told to a tracer as lines of text, between two marker
lines, and the end of the frame asks for a flush. A tracer may ignore all this, gather the
lines of a frame and write them to the log at the flush, or keep the lines for good and
count the flushes. Main statements: what a line and a flush leave in the buffer, and what the
steps of a whole frame come to (`Tracer.foldl_take_frame`).
-/

namespace FrameUI.Frame

inductive TraceStep where
  | started
  | line (text : String)
  | ended
  | flushed
deriving DecidableEq, Repr

namespace TraceStep

def startMarker : String := "// --- start frame ---"
def endMarker : String := "// --- end frame ---"

def line? : TraceStep → Option String
  | started => some startMarker
  | line text => some text
  | ended => some endMarker
  | flushed => none

end TraceStep

/-- What becomes of the trace. -/
inductive Tracer where
  | silent
  | buffered (lines : List String)
  | recording (lines : List String) (flushes : Nat)
deriving DecidableEq, Repr

namespace Tracer

def buffer : Tracer → List String
  | silent => []
  | buffered lines => lines
  | recording lines _ => lines

def append (t : Tracer) (text : String) : Tracer :=
  match t with
  | silent => silent
  | buffered lines => buffered (lines ++ [text])
  | recording lines flushes => recording (lines ++ [text]) flushes

/-- Flushes: a buffer that holds lines is written as one record and emptied. -/
def flush : Tracer → Logged Tracer
  | silent => pure silent
  | buffered [] => pure (buffered [])
  | buffered (l :: ls) => do
    Logged.write .info "trema::trace" ("\n".intercalate (l :: ls))
    pure (buffered [])
  | recording lines flushes => pure (recording lines (flushes + 1))

def take (t : Tracer) (step : TraceStep) : Logged Tracer :=
  match step.line? with
  | some text => pure (t.append text)
  | none => t.flush

/-- The lines of a recording as one text, and the empty text for any other tracer. -/
def text : Tracer → String
  | recording lines _ => "\n".intercalate lines
  | _ => ""

/-- The flushes of a recording, and zero for any other tracer. -/
def flushes : Tracer → Nat
  | recording _ n => n
  | _ => 0

def clear : Tracer → Tracer
  | recording _ n => recording [] n
  | t => t

/-! ### The buffer -/

theorem flush_buffered (lines : List String) :
    (buffered lines).flush.value = buffered [] := by
  cases lines with
  | nil => rfl
  | cons l ls => rfl

theorem flush_recording (lines : List String) (n : Nat) :
    (recording lines n).flush = pure (recording lines (n + 1)) := rfl

theorem foldl_append_buffered (kept lines : List String) :
    lines.foldl append (buffered kept) = buffered (kept ++ lines) := by
  induction lines generalizing kept with
  | nil => exact congrArg buffered (List.append_nil kept).symm
  | cons l ls ih => exact (ih (kept ++ [l])).trans (congrArg buffered (List.append_assoc _ _ _))

theorem foldl_append_recording (kept lines : List String) (n : Nat) :
    lines.foldl append (recording kept n) = recording (kept ++ lines) n := by
  induction lines generalizing kept with
  | nil => exact congrArg (recording · n) (List.append_nil kept).symm
  | cons l ls ih =>
    exact (ih (kept ++ [l])).trans (congrArg (recording · n) (List.append_assoc _ _ _))

/-! ### Frames -/

/-- Where nothing is flushed, a tracer takes in the lines of the steps. -/
theorem foldl_take_of_not_flushed (t : Tracer) (steps : List TraceStep) (h : .flushed ∉ steps) :
    steps.foldl (fun (t : Tracer) step => (t.take step).value) t =
      (steps.filterMap TraceStep.line?).foldl append t := by
  induction steps generalizing t with
  | nil => rfl
  | cons step steps ih =>
    rw [List.mem_cons, not_or] at h
    rw [List.foldl_cons, ih _ h.2]
    cases step with
    | flushed => exact absurd rfl h.1
    | _ => rfl

/-- The steps of a frame come to its lines between the markers, and one flush. -/
theorem foldl_take_frame (t : Tracer) (lines : List String) :
    (TraceStep.started :: lines.map TraceStep.line ++ [TraceStep.ended, .flushed]).foldl
        (fun (t : Tracer) step => (t.take step).value) t =
      ((TraceStep.startMarker :: (lines ++ [TraceStep.endMarker])).foldl append t).flush.value := by
  have hsplit : TraceStep.started :: lines.map TraceStep.line ++ [TraceStep.ended, .flushed] =
      (TraceStep.started :: lines.map TraceStep.line ++ [TraceStep.ended]) ++ [.flushed] :=
    (List.append_assoc _ [TraceStep.ended] [.flushed]).symm
  have hflushed : TraceStep.flushed ∉
      TraceStep.started :: lines.map TraceStep.line ++ [TraceStep.ended] := by simp
  have hlines : (TraceStep.started :: lines.map TraceStep.line ++ [TraceStep.ended]).filterMap
      TraceStep.line? = TraceStep.startMarker :: (lines ++ [TraceStep.endMarker]) := by
    simp [TraceStep.line?, List.filterMap_append, List.filterMap_map, Function.comp_def]
  rw [hsplit, List.foldl_append, foldl_take_of_not_flushed t _ hflushed, hlines]
  rfl

end Tracer
end FrameUI.Frame
