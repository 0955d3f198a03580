import FrameUI.Text.Position
import Mathlib.Data.List.Induction

/-!
# Positions, counted at once

A position is reached one character after the other. It can be told from the text before it at
once: the line from the newlines in it, the column from what stands behind the last of them. Hence
what a text in front does to a position: its newlines move the line, and its last line moves the
column of what stands on the first line.
-/

namespace FrameUI.Text

/-- What stands behind the last newline of a text. -/
def lastLine (s : List Char) : List Char := (s.reverse.takeWhile (· != '\n')).reverse

theorem lastLine_append_singleton (s : List Char) (c : Char) :
    lastLine (s ++ [c]) = if c = '\n' then [] else lastLine s ++ [c] := by
  simp only [lastLine, List.reverse_append, List.reverse_singleton, List.singleton_append,
    List.takeWhile_cons]
  by_cases hc : c = '\n'
  · simp [hc]
  · simp [hc]

theorem lastLine_append_of_mem (s t : List Char) (h : '\n' ∈ t) :
    lastLine (s ++ t) = lastLine t := by
  induction t using List.reverseRecOn with
  | nil => exact absurd h List.not_mem_nil
  | append_singleton t c ih =>
    rw [← List.append_assoc, lastLine_append_singleton, lastLine_append_singleton]
    split
    · rfl
    · rename_i hc
      rcases List.mem_append.mp h with hmem | hmem
      · rw [ih hmem]
      · exact absurd (List.mem_singleton.mp hmem).symm hc

theorem lastLine_append_of_not_mem (s t : List Char) (h : '\n' ∉ t) :
    lastLine (s ++ t) = lastLine s ++ t := by
  induction t using List.reverseRecOn with
  | nil => rw [List.append_nil, List.append_nil]
  | append_singleton t c ih =>
    rw [List.mem_append, not_or, List.mem_singleton] at h
    rw [← List.append_assoc, lastLine_append_singleton, if_neg (Ne.symm h.2), ih h.1,
      List.append_assoc]

theorem lastLine_of_not_mem (s : List Char) (h : '\n' ∉ s) : lastLine s = s := by
  simpa [lastLine] using lastLine_append_of_not_mem [] s h

namespace Position

/-- Where a position moves when a text is put in front of everything. -/
def behind (front : List Char) (p : Position) : Position :=
  ⟨p.line + front.count '\n',
    if p.line = 1 then p.column + (lastLine front).length else p.column⟩

theorem after_eq (s : List Char) : after s = ⟨1 + s.count '\n', 1 + (lastLine s).length⟩ := by
  induction s using List.reverseRecOn with
  | nil => rfl
  | append_singleton s c ih =>
    rw [after_append_singleton, ih, advance, lastLine_append_singleton, List.count_append]
    split
    · rename_i hc
      rw [hc]
      rfl
    · rename_i hc
      simp [hc, Nat.add_assoc]

/-- The line of a position is the first if no newline stands before it. -/
theorem line_after_eq_one_iff (s : List Char) : (after s).line = 1 ↔ '\n' ∉ s := by
  rw [after_eq, ← List.count_eq_zero]
  exact Nat.add_eq_left

theorem after_append (front s : List Char) : after (front ++ s) = (after s).behind front := by
  have hline := line_after_eq_one_iff s
  rw [behind, after_eq (front ++ s), List.count_append]
  by_cases hs : '\n' ∈ s
  · rw [if_neg (by tauto), lastLine_append_of_mem front s hs, after_eq]
    simp only [Nat.add_assoc, Nat.add_comm (s.count '\n')]
  · rw [if_pos (hline.mpr hs), lastLine_append_of_not_mem front s hs, after_eq]
    simp only [lastLine_of_not_mem s hs, List.length_append, Nat.add_assoc,
      Nat.add_comm (s.count '\n'), Nat.add_comm s.length]

/-- A text in front leaves a position alone if it has no newline and, for a position on the first
line, is empty. -/
theorem behind_eq_self_iff (front : List Char) (p : Position) :
    p.behind front = p ↔ '\n' ∉ front ∧ (p.line = 1 → front = []) := by
  cases p with
  | mk line column =>
    simp only [behind, Position.mk.injEq, Nat.add_eq_left, List.count_eq_zero]
    refine and_congr_right fun hplain => ?_
    rw [lastLine_of_not_mem front hplain]
    split
    · rename_i hfirst
      rw [Nat.add_eq_left, List.length_eq_zero_iff]
      exact (imp_iff_right hfirst).symm
    · rename_i hlater
      exact iff_of_true rfl fun hfirst => absurd hfirst hlater

end Position
end FrameUI.Text
