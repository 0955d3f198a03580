import FrameUI.Proofs.Frame.Narration
import FrameUI.Proofs.Markup.Admissible
import FrameUI.Proofs.Markup.Reparsing

/-!
# Single lines

Texts, attribute values and numbers reach the trace on one line each, and so do tags. A message
with which the backend refuses a call is traced as it is. Main statement: a line of the trace is
broken by nothing but such a message, and without one a buffer is flushed as a text that falls
into the lines that were traced (`Renderer.render_singleLines`).
-/

namespace FrameUI

/-! ### Tags -/

namespace Markup

theorem wellNamed_parseOrShow (v : Validator) (source : String) :
    (parseOrShow v source).value.wellNamed = true := by
  rw [parseOrShow, Logged.value_bind]
  cases h : (parse v source).run.value with
  | ok root => exact wellNamed_of_parse v source root h
  | error e => rfl

end Markup

namespace Frame

variable {σ : Type}

/-! ### Lines -/

theorem toList_failureLine (tag : String) (err : CallError) :
    (failureLine tag err).toList =
      "// Error: Failed to render ".toList ++ tag.toList ++ " - ".toList ++ err.message.toList := by
  change ("// Error: Failed to render " ++ tag ++ " - " ++ err.message).toList = _
  rw [String.toList_append, String.toList_append, String.toList_append]

theorem newline_mem_failureLine (tag : String) (err : CallError)
    (htag : Markup.isName tag = true) (h : '\n' ∈ (failureLine tag err).toList) :
    '\n' ∈ err.message.toList := by
  rw [toList_failureLine, List.mem_append, List.mem_append, List.mem_append] at h
  rcases h with ((hfront | hmem) | hdash) | hmessage
  · exact absurd hfront (by decide)
  · exact absurd hmem (Markup.not_mem_of_isName htag (by decide))
  · exact absurd hdash (by decide)
  · exact hmessage

theorem not_newline_of_isRemark (ev : Event) (h : ev.isRemark = true) :
    ∀ line ∈ linesTold [ev], '\n' ∉ line.toList := by
  intro line hline
  cases ev with
  | traced step =>
    cases step with
    | started =>
      obtain rfl := List.mem_singleton.1 hline
      decide
    | ended =>
      obtain rfl := List.mem_singleton.1 hline
      decide
    | flushed => exact absurd hline List.not_mem_nil
    | line text =>
      obtain rfl := List.mem_singleton.1 hline
      have hclear := (Bool.and_eq_true_iff.1 h).2
      simpa using hclear
  | _ => exact absurd hline List.not_mem_nil

/-- A line about an element that has failed, which the message of a refusal breaks. -/
def BrokenLine (journal : List Event) (line : String) : Prop :=
  ∃ tag, Markup.isName tag = true ∧ ∃ err ∈ refusals journal,
    '\n' ∈ err.message.toList ∧ line = failureLine tag err

theorem BrokenLine.append {journal : List Event} {line : String} (h : BrokenLine journal line)
    (more : List Event) : BrokenLine (journal ++ more) line := by
  obtain ⟨tag, htag, err, herr, hparts⟩ := h
  exact ⟨tag, htag, err, mem_refusals_of_prefix (List.prefix_append _ _) err herr, hparts⟩

/-- In a told journal nothing but the message of a refusal breaks a line. -/
theorem Told.brokenLine {journal : List Event}
    (h : Told (fun tag => Markup.isName tag = true) journal) (line : String)
    (hline : line ∈ linesTold journal) (hbreak : '\n' ∈ line.toList) :
    BrokenLine journal line := by
  induction h with
  | nil => exact absurd hline List.not_mem_nil
  | remark journal ev _ _ hremark ih =>
    rw [linesTold_append, List.mem_append] at hline
    rcases hline with hline | hline
    · exact (ih hline).append _
    · exact absurd hbreak (not_newline_of_isRemark ev hremark line hline)
  | failure journal tag err _ htag herr ih =>
    rw [linesTold_append, List.mem_append] at hline
    rcases hline with hline | hline
    · exact (ih hline).append _
    · obtain rfl := List.mem_singleton.1 hline
      have hbroken : BrokenLine journal (failureLine tag err) :=
        ⟨tag, htag, err, herr, newline_mem_failureLine tag err htag hbreak, rfl⟩
      exact hbroken.append _
  | call journal c reply _ ih =>
    rw [linesTold_append, List.mem_append] at hline
    rcases hline with hline | hline
    · exact (ih hline).append _
    · obtain rfl := List.mem_singleton.1 hline
      exact absurd hbreak c.not_newline_mem_traceLine

/-! ### Flushing a buffer -/

theorem splitOn_intercalate_lines (lines : List String) (hne : lines ≠ [])
    (h : ∀ line ∈ lines, '\n' ∉ line.toList) :
    ("\n".intercalate lines).toList.splitOn '\n' = lines.map String.toList := by
  rw [String.toList_intercalate]
  apply List.splitOn_intercalate
  · exact List.forall_mem_map.2 h
  · exact mt List.map_eq_nil_iff.1 hne

namespace Renderer

variable (r : Renderer σ) (device : σ) (markup stylesheet : String)

/-- A frame that is not broken off ends in a flush. -/
theorem exists_flushed (h : (r.render device markup stylesheet).value.status.isSome = true) :
    ∃ events, (r.render device markup stylesheet).value.journal = events ++ [.traced .flushed] := by
  by_cases hverdict : r.verdict markup stylesheet = .rendered
  · obtain ⟨_, _, _, outcome, t, _, _, _, _, hstatus, hjournal⟩ :=
      r.render_drawn markup stylesheet hverdict device
    rw [hstatus] at h
    cases outcome with
    | error f => cases h
    | ok a =>
      refine ⟨t.journal ++ (t.store.sweep.records.map .logged ++ [.traced .ended]), ?_⟩
      rw [hjournal, ended, closed, List.append_assoc, List.append_assoc]
      rfl
  · obtain ⟨notes, _, _, hjournal⟩ := r.render_undrawn markup stylesheet hverdict device
    refine ⟨.traced .started :: notes ++ [.traced .ended], ?_⟩
    rw [hjournal, List.append_assoc]
    rfl

theorem records_render : (r.render device markup stylesheet).records =
    (Event.tellAll r.tracer (r.render device markup stylesheet).value.journal).records := by
  rw [render]
  split
  · exact List.append_nil _
  · exact List.append_nil _

/-- The last record of a frame that is not broken off is what a buffer is flushed as. -/
theorem getLast?_records_render (earlier : List String) (htracer : r.tracer = .buffered earlier)
    (h : (r.render device markup stylesheet).value.status.isSome = true) :
    (r.render device markup stylesheet).records.getLast? = some ⟨.info, "trema::trace",
      "\n".intercalate (earlier ++ linesTold (r.render device markup stylesheet).value.journal)⟩ ∧
        linesTold (r.render device markup stylesheet).value.journal ≠ [] := by
  -- The flush is the last step of the frame, so by then the buffer holds all of its lines.
  obtain ⟨events, hevents⟩ := r.exists_flushed device markup stylesheet h
  obtain ⟨lines, hlines⟩ := r.tracedSteps_render device markup stylesheet
  rw [if_pos h, hevents, tracedSteps_append] at hlines
  have hsteps : tracedSteps events = .started :: lines.map .line ++ [.ended] := by
    have hends : [TraceStep.ended, .flushed] = [.ended] ++ [.flushed] := rfl
    rw [hends, ← List.append_assoc] at hlines
    exact List.append_cancel_right hlines
  have hflushed : TraceStep.flushed ∉ tracedSteps events := by
    rw [hsteps]
    simp
  have hvalue := value_tellAll r.tracer events
  rw [htracer, Tracer.foldl_take_of_not_flushed _ _ hflushed,
    Tracer.foldl_append_buffered] at hvalue
  have htold : linesTold (events ++ [.traced .flushed]) = linesTold events := by
    rw [linesTold_append]
    exact List.append_nil _
  have hstart : linesTold events = TraceStep.startMarker :: (lines ++ [TraceStep.endMarker]) := by
    rw [linesTold, hsteps, List.filterMap_append, List.filterMap_cons, filterMap_line?]
    rfl
  have hne : earlier ++ linesTold events ≠ [] := by
    rw [hstart]
    exact List.append_ne_nil_of_right_ne_nil _ (List.cons_ne_nil _ _)
  obtain ⟨first, rest, hbuffer⟩ := List.exists_cons_of_ne_nil hne
  change (Event.tellAll _ events).value = .buffered (earlier ++ linesTold events) at hvalue
  rw [r.records_render, hevents, htold, Event.tellAll_append, Logged.records_bind, htracer, hvalue,
    hbuffer, hstart]
  exact ⟨List.getLast?_concat, List.cons_ne_nil _ _⟩

/-- A line of the trace is broken only where it tells of an element that has failed, by the message
of a refusal. If no message breaks a line, a buffer is flushed as a text that falls into the lines
that were traced, with what the buffer held before. -/
theorem render_singleLines :
    let x : Rendering σ := (r.render device markup stylesheet).value
    (∀ line ∈ linesTold x.journal, '\n' ∈ line.toList → BrokenLine x.journal line) ∧
      ((∀ err ∈ refusals x.journal, '\n' ∉ err.message.toList) →
        ∀ earlier, r.tracer = .buffered earlier → (∀ line ∈ earlier, '\n' ∉ line.toList) →
          x.status.isSome = true →
            ∃ text, (r.render device markup stylesheet).records.getLast? =
                some ⟨.info, "trema::trace", text⟩ ∧
              text.toList.splitOn '\n' = (earlier ++ linesTold x.journal).map String.toList) := by
  intro x
  have htold : Told (fun tag => Markup.isName tag = true) x.journal :=
    r.told_render device markup stylesheet
      (Markup.isName_of_mem_sites _ [] (Markup.wellNamed_parseOrShow _ _))
  refine ⟨fun line => htold.brokenLine line, ?_⟩
  intro hmessages earlier htracer hearlier hstatus
  obtain ⟨hlast, hne⟩ := r.getLast?_records_render device markup stylesheet earlier htracer hstatus
  refine ⟨_, hlast, splitOn_intercalate_lines _ (List.append_ne_nil_of_right_ne_nil _ hne) ?_⟩
  refine List.forall_mem_append.2 ⟨hearlier, fun line hline hbreak => ?_⟩
  obtain ⟨_, _, err, herr, hmessage, _⟩ := htold.brokenLine line hline hbreak
  exact hmessages err herr hmessage

/-! ### Messages with and without newlines -/

/-- A renderer of the recorder that buffers the trace. -/
def bufferingRenderer : Renderer Recorder :=
  { (ofConfig {} : Renderer Recorder) with
    backend := some Recorder.backend
    tracer := .buffered ["// before"] }

/-- A text of two lines, drawn by a recorder that refuses texts with a message of one line. -/
theorem render_singleLines_refused :
    let x := (bufferingRenderer.render (({} : Recorder).refuse "text")
      "<App><Text>a\nb</Text></App>" "").value
    (refusals x.journal).length = 1 ∧ (∀ err ∈ refusals x.journal, '\n' ∉ err.message.toList) ∧
      (∀ line ∈ ["// before"], '\n' ∉ line.toList) ∧ x.status.isSome = true ∧
        ∃ text, (bufferingRenderer.render (({} : Recorder).refuse "text")
            "<App><Text>a\nb</Text></App>" "").records.getLast? =
              some ⟨.info, "trema::trace", text⟩ ∧
          text.toList.splitOn '\n' = (["// before"] ++ linesTold x.journal).map String.toList := by
  intro x
  have hrefused : (refusals x.journal).length = 1 := by decide +kernel
  have hmessages : ∀ err ∈ refusals x.journal, '\n' ∉ err.message.toList := by decide +kernel
  have hearlier : ∀ line ∈ ["// before"], '\n' ∉ line.toList := by decide
  have hstatus : x.status.isSome = true := by decide +kernel
  exact ⟨hrefused, hmessages, hearlier, hstatus,
    (render_singleLines bufferingRenderer _ _ _).2 hmessages _ rfl hearlier hstatus⟩

def spilling : String := "a\nImGui.Spacing();\nb"

/-- A recorder that refuses a text shows the text in its message. The line about the failure is
broken, and in what is flushed a part of it reads like the line of a call that nobody issued. -/
theorem exists_render_brokenLine :
    let x := (bufferingRenderer.render (({} : Recorder).refuseText spilling)
      ("<App><Text>" ++ spilling ++ "</Text></App>") "").value
    (∃ line ∈ linesTold x.journal, '\n' ∈ line.toList) ∧
      (issued x.journal).map (·.call) = [.text spilling] ∧
        ∃ text, (bufferingRenderer.render (({} : Recorder).refuseText spilling)
            ("<App><Text>" ++ spilling ++ "</Text></App>") "").records.getLast? =
              some ⟨.info, "trema::trace", text⟩ ∧
          Call.spacing.traceLine.toList ∈ text.toList.splitOn '\n' := by
  intro x
  have hbroken : ∃ line ∈ linesTold x.journal, '\n' ∈ line.toList := by decide +kernel
  have hcalls : (issued x.journal).map (·.call) = [.text spilling] := by decide +kernel
  have hstatus : x.status.isSome = true := by decide +kernel
  have hspilled : Call.spacing.traceLine.toList ∈
      ("\n".intercalate (["// before"] ++ linesTold x.journal)).toList.splitOn '\n' := by
    decide +kernel
  exact ⟨hbroken, hcalls, _, (getLast?_records_render bufferingRenderer _ _ _ _ rfl hstatus).1,
    hspilled⟩

end Renderer
end Frame
end FrameUI
