import FrameUI.Frame.Scene

/-!
# The calls of a frame as brackets

The calls that a journal notes are brackets of two kinds: windows begin and end, and colours
are pushed and popped. A ledger follows both. Main statement: calls that are put together
from widgets and windows, each between its own pushes and its own pops, are well bracketed.
-/

namespace FrameUI.Frame

/-- A call that was issued, with the answer to it. -/
structure Issued where
  call : Call
  reply : Except Fault call.Answer

/-- The call that an event notes. -/
def Event.issued? : Event → Option Issued
  | .called call reply => some ⟨call, reply⟩
  | _ => none

/-- The calls in a journal, in order. -/
def issued (journal : List Event) : List Issued := journal.filterMap Event.issued?

theorem issued_append (journal events : List Event) :
    issued (journal ++ events) = issued journal ++ issued events :=
  List.filterMap_append

namespace Call

def isPush : Call → Bool
  | .pushColor .. => true
  | _ => false

/-- Whether a call is no bracket: it neither begins nor ends a window, pushes or pops. -/
def isPlain : Call → Bool
  | .pushColor .. | .popColors .. | .beginWindow .. | .endWindow => false
  | _ => true

end Call

namespace Issued

/-- How many colours the call pushed: one if it is a push that was accepted. -/
def pushes (i : Issued) : Nat :=
  match i.call with
  | .pushColor .. => if i.reply.isOk then 1 else 0
  | _ => 0

/-- How many colours the call asks to pop, whatever the answer. -/
def pops (i : Issued) : Nat :=
  match i.call with
  | .popColors count => count
  | _ => 0

end Issued

/-- The accepted pushes among some calls. -/
def pushed : List Issued → Nat
  | [] => 0
  | i :: calls => i.pushes + pushed calls

theorem pushed_append (calls more : List Issued) :
    pushed (calls ++ more) = pushed calls + pushed more := by
  induction calls with
  | nil => simp [pushed]
  | cons i calls ih => rw [List.cons_append, pushed, pushed, ih, Nat.add_assoc]

/-! ### Ledgers -/

/-- What has been issued so far: the accepted pushes, the requested pops, the depth of
colours before the pushes that came last, and for each window under way, from the innermost
outwards, the depth before its own pushes. -/
structure Ledger where
  pushed : Nat
  popped : Nat
  base : Int
  windows : List Int

namespace Ledger

/-- The ledger before any call. -/
def blank : Ledger := ⟨0, 0, 0, []⟩

/-- The depth of colours: those pushed and not yet asked to be popped. -/
def depth (l : Ledger) : Int := l.pushed - l.popped

/-- Counts the colours that a call pushes and pops. -/
def count (l : Ledger) (i : Issued) : Ledger :=
  { l with pushed := l.pushed + i.pushes, popped := l.popped + i.pops }

/-- Makes the present depth the one before the next pushes. -/
def settle (l : Ledger) : Ledger := { l with base := l.depth }

/-- Takes a call into the ledger. A window that begins remembers the depth before the pushes
right before it, and a window that ends is forgotten. -/
def note (l : Ledger) (i : Issued) : Ledger :=
  match i.call with
  | .pushColor .. => l.count i
  | .beginWindow .. => { l.count i with windows := l.base :: l.windows }.settle
  | .endWindow => { l.count i with windows := l.windows.tail }.settle
  | _ => (l.count i).settle

/-- Takes calls into the ledger in order. -/
def run (l : Ledger) (calls : List Issued) : Ledger := calls.foldl note l

/-- The ledger of calls that were issued from the beginning. -/
def ofCalls (calls : List Issued) : Ledger := blank.run calls

end Ledger

/-- Windows and colours are well bracketed in the calls of a frame. -/
structure WellBracketed (calls : List Issued) : Prop where
  pops_le_pushes : ∀ before after, calls = before ++ after →
    (Ledger.ofCalls before).popped ≤ (Ledger.ofCalls before).pushed
  ends_match : ∀ before i after, calls = before ++ i :: after → i.call = .endWindow →
    ∃ outer, (Ledger.ofCalls before).windows = (Ledger.ofCalls before).depth :: outer
  windows_ended : (Ledger.ofCalls calls).windows = []
  colors_popped : (Ledger.ofCalls calls).depth = 0

/-! ### Prefixes -/

namespace Ledger

theorem run_nil (l : Ledger) : l.run [] = l := rfl

theorem run_cons (l : Ledger) (i : Issued) (calls : List Issued) :
    l.run (i :: calls) = (l.note i).run calls := rfl

theorem run_append (l : Ledger) (calls more : List Issued) :
    l.run (calls ++ more) = (l.run calls).run more :=
  List.foldl_append

/-- From this ledger on, no prefix pops more than was pushed, and every end of a window finds
a window that began at the present depth. -/
def Fair : Ledger → List Issued → Prop
  | l, [] => l.popped ≤ l.pushed
  | l, i :: calls =>
    l.popped ≤ l.pushed ∧
      (i.call = .endWindow → ∃ outer, l.windows = l.depth :: outer) ∧ Fair (l.note i) calls

theorem Fair.start (l : Ledger) (calls : List Issued) (h : l.Fair calls) :
    l.popped ≤ l.pushed := by
  cases calls with
  | nil => exact h
  | cons i calls => exact h.1

theorem fair_append (l : Ledger) (calls more : List Issued) (h : l.Fair calls)
    (hmore : (l.run calls).Fair more) : l.Fair (calls ++ more) := by
  induction calls generalizing l with
  | nil => exact hmore
  | cons i calls ih => exact ⟨h.1, h.2.1, ih (l.note i) h.2.2 hmore⟩

theorem Fair.after (l : Ledger) (before after : List Issued) (h : l.Fair (before ++ after)) :
    (l.run before).Fair after := by
  induction before generalizing l with
  | nil => exact h
  | cons i before ih => exact ih (l.note i) h.2.2

/-! ### Single calls -/

/-- A ledger after as many pushes as pops. -/
def shift (l : Ledger) (n : Nat) : Ledger :=
  { l with pushed := l.pushed + n, popped := l.popped + n }

/-- Nothing has been pushed since the depth was last noted. -/
def Settled (l : Ledger) : Prop := l.base = l.depth

theorem depth_shift (l : Ledger) (n : Nat) : (l.shift n).depth = l.depth := by
  simp only [depth, shift]
  omega

theorem settled_shift (l : Ledger) (n : Nat) (h : l.Settled) : (l.shift n).Settled := by
  unfold Settled at h ⊢
  rw [depth_shift]
  exact h

theorem shift_shift (l : Ledger) (m n : Nat) : (l.shift m).shift n = l.shift (m + n) := by
  simp only [shift, Nat.add_assoc]

theorem note_plain (l : Ledger) (i : Issued) (h : i.call.isPlain) : l.note i = l.settle := by
  obtain ⟨call, reply⟩ := i
  cases call <;> first | rfl | simp [Call.isPlain] at h

theorem note_push (l : Ledger) (i : Issued) (h : i.call.isPush) :
    l.note i = { l with pushed := l.pushed + i.pushes } := by
  obtain ⟨call, reply⟩ := i
  cases call <;> first | rfl | simp [Call.isPush] at h

theorem run_pushes (l : Ledger) (calls : List Issued) (h : ∀ i ∈ calls, i.call.isPush) :
    l.run calls = { l with pushed := l.pushed + Frame.pushed calls } := by
  induction calls generalizing l with
  | nil => rfl
  | cons i calls ih =>
    have hrest : ∀ j ∈ calls, j.call.isPush := fun j hj => h j (List.mem_cons_of_mem i hj)
    rw [run_cons, ih (l.note i) hrest, note_push l i (h i List.mem_cons_self)]
    simp only [Frame.pushed, Nat.add_assoc]

theorem fair_pushes (l : Ledger) (calls : List Issued) (h : ∀ i ∈ calls, i.call.isPush)
    (hle : l.popped ≤ l.pushed) : l.Fair calls := by
  induction calls generalizing l with
  | nil => exact hle
  | cons i calls ih =>
    have hi := h i List.mem_cons_self
    refine ⟨hle, ?_, ?_⟩
    · intro hend
      rw [hend] at hi
      cases hi
    · apply ih (l.note i) fun j hj => h j (List.mem_cons_of_mem i hj)
      rw [note_push l i hi]
      exact Nat.le_trans hle (Nat.le_add_right _ _)

end Ledger

/-! ### Drawn calls -/

/-- The calls that pop `n` colours: none for no colours, or else one. -/
def PopsOff (n : Nat) (calls : List Issued) : Prop :=
  (n = 0 ∧ calls = []) ∨ ∃ reply, calls = [⟨.popColors n, reply⟩]

/-- Calls put together from widgets and windows. A widget is one plain call between its
pushes and its pops, and a window holds other drawn calls. -/
inductive Drawn : List Issued → Prop
  | nothing : Drawn []
  | append (calls more : List Issued) : Drawn calls → Drawn more → Drawn (calls ++ more)
  | widget (pushes pops : List Issued) (i : Issued) (hpushes : ∀ p ∈ pushes, p.call.isPush)
      (hplain : i.call.isPlain) (hpops : PopsOff (pushed pushes) pops) :
      Drawn (pushes ++ i :: pops)
  | window (pushes inner pops : List Issued) (start stop : Issued) (name : String)
      (flags : WindowFlags) (hpushes : ∀ p ∈ pushes, p.call.isPush)
      (hstart : start.call = .beginWindow name flags) (hinner : Drawn inner)
      (hpops : PopsOff (pushed pushes) pops) (hstop : stop.call = .endWindow) :
      Drawn (pushes ++ start :: (inner ++ (pops ++ [stop])))

namespace Ledger

theorem run_popsOff (l : Ledger) (n : Nat) (calls : List Issued) (h : PopsOff n calls)
    (hsettled : l.Settled) :
    l.run calls = { l with popped := l.popped + n, base := l.depth - n } := by
  rcases h with ⟨rfl, rfl⟩ | ⟨reply, rfl⟩
  · have hbase : l.depth = l.base := hsettled.symm
    simp [run_nil, hbase]
  · simp [run, note, count, settle, depth, Issued.pushes, Issued.pops, Int.sub_sub]

theorem fair_popsOff (l : Ledger) (n : Nat) (calls : List Issued) (h : PopsOff n calls)
    (hle : l.popped + n ≤ l.pushed) : l.Fair calls := by
  have hstart : l.popped ≤ l.pushed := Nat.le_trans (Nat.le_add_right _ _) hle
  rcases h with ⟨rfl, rfl⟩ | ⟨reply, rfl⟩
  · exact hstart
  · refine ⟨hstart, ?_, ?_⟩
    · intro hend
      cases hend
    · simpa [Fair, note, count, settle, Issued.pushes, Issued.pops] using hle

theorem settled_settle (l : Ledger) : l.settle.Settled := rfl

theorem run_widget (l : Ledger) (pushes pops : List Issued) (i : Issued)
    (hpushes : ∀ p ∈ pushes, p.call.isPush) (hplain : i.call.isPlain)
    (hpops : PopsOff (Frame.pushed pushes) pops) (hsettled : l.Settled)
    (hle : l.popped ≤ l.pushed) :
    l.Fair (pushes ++ i :: pops) ∧
      l.run (pushes ++ i :: pops) = l.shift (Frame.pushed pushes) := by
  have hbase : l.base = l.depth := hsettled
  have hrun := run_pushes l pushes hpushes
  have hdrawn := note_plain (l.run pushes) i hplain
  rw [hrun] at hdrawn
  constructor
  · refine fair_append l pushes _ (fair_pushes l pushes hpushes hle) ?_
    rw [hrun]
    refine ⟨Nat.le_trans hle (Nat.le_add_right _ _), ?_, ?_⟩
    · intro hend
      rw [hend] at hplain
      cases hplain
    · rw [hdrawn]
      apply fair_popsOff _ _ _ hpops
      simp only [settle]
      omega
  · rw [run_append, run_cons, hrun, hdrawn, run_popsOff _ _ _ hpops (settled_settle _)]
    simp only [settle, shift, depth, hbase, Ledger.mk.injEq, and_true, true_and]
    omega

/-- The ledger inside a window with some accepted pushes of its own. -/
def inside (l : Ledger) (own : Nat) : Ledger :=
  { l with
    pushed := l.pushed + own
    base := l.depth + own
    windows := l.depth :: l.windows }

theorem settled_inside (l : Ledger) (own : Nat) : (l.inside own).Settled := by
  simp only [Settled, inside, depth]
  omega

theorem note_start (l : Ledger) (pushes : List Issued) (start : Issued) (name : String)
    (flags : WindowFlags) (hpushes : ∀ p ∈ pushes, p.call.isPush)
    (hstart : start.call = .beginWindow name flags) (hsettled : l.Settled) :
    (l.run pushes).note start = l.inside (Frame.pushed pushes) := by
  have hbase : l.base = l.depth := hsettled
  rw [run_pushes l pushes hpushes]
  obtain ⟨call, reply⟩ := start
  subst hstart
  simp only [note, count, settle, inside, depth, Issued.pushes, Issued.pops, Nat.add_zero, hbase,
    Ledger.mk.injEq, and_true, true_and]
  omega

theorem note_stop (l : Ledger) (stop : Issued) (h : stop.call = .endWindow) :
    l.note stop = { l with windows := l.windows.tail }.settle := by
  obtain ⟨call, reply⟩ := stop
  subst h
  rfl

/-- The pops and the end of a window, wherever in the run of it the pushes inside have all
been popped. -/
theorem run_closing (l : Ledger) (own n : Nat) (pops : List Issued) (stop : Issued)
    (hpops : PopsOff own pops) (hstop : stop.call = .endWindow) (hsettled : l.Settled)
    (hle : l.popped ≤ l.pushed) :
    ((l.inside own).shift n).Fair (pops ++ [stop]) ∧
      ((l.inside own).shift n).run (pops ++ [stop]) = l.shift (own + n) := by
  have hbase : l.base = l.depth := hsettled
  have hbody := settled_shift (l.inside own) n (settled_inside l own)
  have hpopped : ((l.inside own).shift n).run pops = { l with
      pushed := l.pushed + own + n
      popped := l.popped + n + own
      windows := l.depth :: l.windows } := by
    rw [run_popsOff _ own pops hpops hbody]
    simp only [inside, shift, depth, hbase, Ledger.mk.injEq, and_true, true_and]
    omega
  constructor
  · refine fair_append _ pops [stop] ?_ ?_
    · apply fair_popsOff _ own pops hpops
      simp only [inside, shift]
      omega
    · -- At the end of the window the depth is the one before its pushes.
      rw [hpopped]
      refine ⟨?_, ?_, ?_⟩
      · simp only
        omega
      · intro _
        refine ⟨l.windows, ?_⟩
        simp only [depth, List.cons.injEq, and_true]
        omega
      · rw [note_stop _ stop hstop]
        simp only [Fair, settle]
        omega
  · rw [run_append, hpopped, run_cons, run_nil, note_stop _ stop hstop]
    simp only [settle, shift, depth, hbase, List.tail_cons, Ledger.mk.injEq, and_true]
    omega

/-- The run of one window, given the run of what it holds. -/
theorem run_window (l : Ledger) (pushes inner pops : List Issued) (start stop : Issued)
    (name : String) (flags : WindowFlags) (hpushes : ∀ p ∈ pushes, p.call.isPush)
    (hstart : start.call = .beginWindow name flags)
    (hpops : PopsOff (Frame.pushed pushes) pops) (hstop : stop.call = .endWindow)
    (hinner : ∀ m : Ledger, m.Settled → m.popped ≤ m.pushed →
      m.Fair inner ∧ ∃ n, m.run inner = m.shift n)
    (hsettled : l.Settled) (hle : l.popped ≤ l.pushed) :
    l.Fair (pushes ++ start :: (inner ++ (pops ++ [stop]))) ∧
      ∃ n, l.run (pushes ++ start :: (inner ++ (pops ++ [stop]))) = l.shift n := by
  have hpushed := run_pushes l pushes hpushes
  have hnote := note_start l pushes start name flags hpushes hstart hsettled
  have hinside : (l.inside (Frame.pushed pushes)).popped ≤
      (l.inside (Frame.pushed pushes)).pushed := Nat.le_trans hle (Nat.le_add_right _ _)
  obtain ⟨hfair, n, hbody⟩ := hinner _ (settled_inside l (Frame.pushed pushes)) hinside
  obtain ⟨hclosing, hend⟩ := run_closing l _ n pops stop hpops hstop hsettled hle
  constructor
  · refine fair_append l pushes _ (fair_pushes l pushes hpushes hle) ⟨?_, ?_, ?_⟩
    · rw [hpushed]
      exact Nat.le_trans hle (Nat.le_add_right _ _)
    · intro hwrong
      rw [hwrong] at hstart
      cases hstart
    · rw [hnote]
      refine fair_append _ inner _ hfair ?_
      rw [hbody]
      exact hclosing
  · refine ⟨Frame.pushed pushes + n, ?_⟩
    rw [run_append, run_cons, hnote, run_append, hbody, hend]

/-- Drawn calls are fair from any settled ledger, and leave it as it was but for pushes that
have all been popped. -/
theorem run_drawn (calls : List Issued) (h : Drawn calls) :
    ∀ l : Ledger, l.Settled → l.popped ≤ l.pushed →
      l.Fair calls ∧ ∃ n, l.run calls = l.shift n := by
  induction h with
  | nothing =>
    intro l _ hle
    exact ⟨hle, 0, rfl⟩
  | append calls more _ _ ih ihMore =>
    intro l hsettled hle
    obtain ⟨hfair, n, hrun⟩ := ih l hsettled hle
    have hshiftLe : (l.shift n).popped ≤ (l.shift n).pushed := Nat.add_le_add_right hle n
    obtain ⟨hfairMore, m, hrunMore⟩ := ihMore (l.shift n) (settled_shift l n hsettled) hshiftLe
    refine ⟨fair_append l calls more hfair ?_, n + m, ?_⟩
    · rw [hrun]
      exact hfairMore
    · rw [run_append, hrun, hrunMore, shift_shift]
  | widget pushes pops i hpushes hplain hpops =>
    intro l hsettled hle
    obtain ⟨hfair, hrun⟩ := run_widget l pushes pops i hpushes hplain hpops hsettled hle
    exact ⟨hfair, _, hrun⟩
  | window pushes inner pops start stop name flags hpushes hstart _ hpops hstop ih =>
    intro l hsettled hle
    exact run_window l pushes inner pops start stop name flags hpushes hstart hpops hstop ih
      hsettled hle

end Ledger

theorem wellBracketed_of_drawn (calls : List Issued) (h : Drawn calls) :
    WellBracketed calls := by
  have hblank : Ledger.blank.popped ≤ Ledger.blank.pushed := Nat.le_refl 0
  obtain ⟨hfair, n, hrun⟩ := Ledger.run_drawn calls h Ledger.blank rfl hblank
  have hat : ∀ before after, calls = before ++ after →
      (Ledger.ofCalls before).Fair after := by
    intro before after heq
    subst heq
    exact Ledger.Fair.after Ledger.blank before after hfair
  refine ⟨?_, ?_, ?_, ?_⟩
  · intro before after hcalls
    exact (hat before after hcalls).start
  · intro before i after hcalls hend
    exact (hat before (i :: after) hcalls).2.1 hend
  · rw [Ledger.ofCalls, hrun]
    rfl
  · rw [Ledger.ofCalls, hrun, Ledger.depth_shift]
    rfl

end FrameUI.Frame
