import FrameUI.Frame.Store
import Mathlib.Data.List.Basic
import Mathlib.Data.List.Induction

/-!
# What a store remembers

A store goes through steps in any order: frames begin and end, entries are read, written or
changed in place, and all entries are cleared. What it holds for a key follows from the history
alone: from the last step on the key, from the frame ends since then, and from the values given
since the entry was created. Main statement: `find?_after`.
-/

namespace FrameUI.Frame

/-- An item of a list is the last one, or stands in front of it. -/
theorem concat_eq_append_cons {α : Type} {xs before later : List α} {x y : α}
    (h : xs ++ [x] = before ++ y :: later) :
    (later = [] ∧ xs = before ∧ x = y) ∨
      ∃ rest, later = rest ++ [x] ∧ xs = before ++ y :: rest := by
  rcases List.eq_nil_or_concat' later with rfl | ⟨rest, last, rfl⟩
  · obtain ⟨rfl, hlast⟩ := List.append_inj' h rfl
    exact Or.inl ⟨rfl, rfl, (List.cons.inj hlast).1⟩
  · have hassoc : before ++ y :: (rest ++ [last]) = (before ++ y :: rest) ++ [last] := by simp
    obtain ⟨rfl, hlast⟩ := List.append_inj' (h.trans hassoc) rfl
    exact Or.inr ⟨rest, by rw [(List.cons.inj hlast).1], rfl⟩

/-! ### Steps -/

inductive StoreStep where
  | advance
  | sweep
  | clear
  | read (id : String) (default : WidgetValue)
  | write (id : String) (value : WidgetValue)
  | edit (id : String) (default : WidgetValue) (change : WidgetValue → WidgetValue)

namespace StoreStep

/-- The key on which a step works, and the value with which it creates a missing entry. -/
def target? : StoreStep → Option (String × WidgetValue)
  | read id default => some (id, default)
  | write id value => some (id, value)
  | edit id default _ => some (id, default)
  | _ => none

def key? (step : StoreStep) : Option String := step.target?.map Prod.fst

/-- The value under a key after a step, given the value before it. -/
def give (id : String) (value : WidgetValue) : StoreStep → WidgetValue
  | write key new => if key = id then new else value
  | edit key _ change => if key = id then change value else value
  | _ => value

theorem give_of_key?_ne (id : String) (value : WidgetValue) (step : StoreStep)
    (h : step.key? ≠ some id) : step.give id value = value := by
  have hne : ∀ key, some key ≠ some id → ¬ key = id := fun key hkey heq => hkey (congrArg some heq)
  cases step with
  | write key new => exact if_neg (hne key h)
  | edit key default change => exact if_neg (hne key h)
  | _ => rfl

end StoreStep

namespace Store

def take (s : Store) : StoreStep → Store
  | .advance => s.advance.value
  | .sweep => s.sweep.value
  | .clear => s.clear
  | .read id default => (s.read id default).2
  | .write id value => s.write id value
  | .edit id default change => s.edit id default change

/-- A new store after some steps. -/
def after (grace : Nat) (steps : List StoreStep) : Store := steps.foldl take (.new grace)

theorem after_concat (grace : Nat) (steps : List StoreStep) (step : StoreStep) :
    after grace (steps ++ [step]) = (after grace steps).take step := List.foldl_append

theorem take_of_target? (s : Store) (step : StoreStep) (id : String) (default : WidgetValue)
    (h : step.target? = some (id, default)) :
    s.take step = s.edit id default fun value => step.give id value := by
  cases step with
  | read key value =>
    cases h
    exact s.read_eq_edit id default
  | write key value =>
    cases h
    simp only [take, write, StoreStep.give, if_true]
  | edit key value change =>
    cases h
    simp only [take, StoreStep.give, if_true]
  | _ => cases h

theorem find?_take_of_key?_ne (s : Store) (step : StoreStep) (id key : String)
    (hkey : step.key? = some key) (hne : key ≠ id) : (s.take step).find? id = s.find? id := by
  obtain ⟨⟨_, default⟩, htarget, rfl⟩ := Option.map_eq_some_iff.1 hkey
  rw [s.take_of_target? step _ default htarget, find?_edit, if_neg hne]

theorem grace_take (s : Store) (step : StoreStep) : (s.take step).grace = s.grace := by
  cases step with
  | sweep => rw [take, sweep_value]
  | _ => rfl

theorem grace_after (grace : Nat) (steps : List StoreStep) : (after grace steps).grace = grace := by
  induction steps using List.reverseRecOn with
  | nil => rfl
  | append_singleton steps step ih => rw [after_concat, grace_take, ih]

/-! ### The last step on a key -/

/-- The last step on a key came in some frame; since then nothing was cleared, and no frame ended
that lies more than the grace period behind it. -/
def Kept (grace : Nat) (id : String) (steps : List StoreStep) (frame : Nat) : Prop :=
  ∃ before touch later, steps = before ++ touch :: later ∧ touch.key? = some id ∧
    (∀ step ∈ later, step.key? ≠ some id ∧ step ≠ .clear) ∧
      (after grace before).frame = frame ∧
        ∀ since more, later = since ++ .sweep :: more →
          (after grace (before ++ touch :: since)).frame ≤ frame + grace

/-- The value under a key: the entry was created by a step at which none was kept, one has been
kept ever since, and the value is what the steps since then have made of the first one. -/
def Holds (grace : Nat) (id : String) (steps : List StoreStep) (value : WidgetValue) : Prop :=
  ∃ earlier first since default, steps = earlier ++ first :: since ∧
    first.target? = some (id, default) ∧ (∀ frame, ¬ Kept grace id earlier frame) ∧
      (∀ part more, since = part ++ more →
        ∃ frame, Kept grace id (earlier ++ first :: part) frame) ∧
        value = (first :: since).foldl (StoreStep.give id) default

variable {grace : Nat} {id : String} {steps : List StoreStep} {step : StoreStep} {frame : Nat}
  {value : WidgetValue}

/-- There is only one last step on a key. -/
theorem Kept.unique {other : Nat} (h : Kept grace id steps frame)
    (hother : Kept grace id steps other) : frame = other := by
  obtain ⟨before, touch, later, hsteps, htouch, hlater, rfl, _⟩ := h
  obtain ⟨before', touch', later', hsteps', htouch', hlater', rfl, _⟩ := hother
  rw [hsteps] at hsteps'
  rcases List.append_eq_append_iff.1 hsteps' with ⟨gap, rfl, hgap⟩ | ⟨gap, rfl, hgap⟩
  · cases gap with
    | nil => rw [List.append_nil]
    | cons first gap =>
      obtain ⟨_, rfl⟩ := List.cons.inj hgap
      exact absurd htouch' (hlater touch' (by simp)).1
  · cases gap with
    | nil => rw [List.append_nil]
    | cons first gap =>
      obtain ⟨_, rfl⟩ := List.cons.inj hgap
      exact absurd htouch (hlater' touch (by simp)).1

theorem not_kept_nil : ¬ Kept grace id [] frame := by
  rintro ⟨before, touch, later, h, _⟩
  cases before <;> cases h

theorem kept_touch (h : step.key? = some id) :
    Kept grace id (steps ++ [step]) (after grace steps).frame :=
  ⟨steps, step, [], rfl, h, nofun, rfl, fun since more hsplit => by cases since <;> cases hsplit⟩

theorem kept_concat_iff (h : step.key? ≠ some id) :
    Kept grace id (steps ++ [step]) frame ↔ Kept grace id steps frame ∧ step ≠ .clear ∧
      (step = .sweep → (after grace steps).frame ≤ frame + grace) := by
  constructor
  · rintro ⟨before, touch, later, hsteps, htouch, hlater, hframe, hsweeps⟩
    rcases concat_eq_append_cons hsteps with ⟨_, _, rfl⟩ | ⟨rest, rfl, rfl⟩
    · exact absurd htouch h
    · refine ⟨⟨before, touch, rest, rfl, htouch, ?_, hframe, ?_⟩, ?_, ?_⟩
      · exact fun s hs => hlater s (List.mem_append_left _ hs)
      · intro since more hsplit
        exact hsweeps since (more ++ [step]) (by rw [hsplit]; simp)
      · exact (hlater step List.mem_concat_self).2
      · rintro rfl
        exact hsweeps rest [] rfl
  · rintro ⟨⟨before, touch, later, rfl, htouch, hlater, hframe, hsweeps⟩, hclear, hsweep⟩
    refine ⟨before, touch, later ++ [step], by simp, htouch, ?_, hframe, ?_⟩
    · intro s hs
      rcases List.mem_append.1 hs with hs | hs
      · exact hlater s hs
      · rw [List.mem_singleton.1 hs]
        exact ⟨h, hclear⟩
    · intro since more hsplit
      rcases concat_eq_append_cons hsplit with ⟨_, rfl, rfl⟩ | ⟨rest, _, rfl⟩
      · exact hsweep rfl
      · exact hsweeps since rest rfl

/-! ### The value under a key -/

/-- A step on a key without an entry creates one. -/
theorem holds_create {default : WidgetValue} (h : step.target? = some (id, default))
    (hgone : ∀ frame, ¬ Kept grace id steps frame) :
    Holds grace id (steps ++ [step]) (step.give id default) := by
  refine ⟨steps, step, [], default, rfl, h, hgone, ?_, rfl⟩
  intro part more hsplit
  rw [(List.append_eq_nil_iff.1 hsplit.symm).1]
  exact ⟨_, kept_touch (by rw [StoreStep.key?, h]; rfl)⟩

theorem Holds.concat (h : Holds grace id steps value)
    (hkept : Kept grace id (steps ++ [step]) frame) :
    Holds grace id (steps ++ [step]) (step.give id value) := by
  obtain ⟨earlier, first, since, default, rfl, htarget, hgone, hever, rfl⟩ := h
  refine ⟨earlier, first, since ++ [step], default, by simp, htarget, hgone, ?_, ?_⟩
  · intro part more hsplit
    rcases List.eq_nil_or_concat' more with rfl | ⟨rest, last, rfl⟩
    · rw [← List.append_nil part, ← hsplit]
      exact ⟨frame, by simpa using hkept⟩
    · rw [← List.append_assoc] at hsplit
      exact hever part rest (List.append_inj' hsplit rfl).1
  · rw [← List.cons_append, List.foldl_append]
    rfl

/-! ### What is found under a key -/

/-- What is to be found under a key after some steps. -/
inductive Remembers (grace : Nat) (id : String) (steps : List StoreStep) :
    Option StoreEntry → Prop
  | gone : (∀ frame, ¬ Kept grace id steps frame) → Remembers grace id steps none
  | held (value : WidgetValue) (frame : Nat) : Kept grace id steps frame →
      Holds grace id steps value → Remembers grace id steps (some ⟨id, value, frame⟩)

variable {entry : Option StoreEntry}

theorem Remembers.touch (h : Remembers grace id steps ((after grace steps).find? id))
    (hkey : step.key? = some id) :
    Remembers grace id (steps ++ [step]) (((after grace steps).take step).find? id) := by
  obtain ⟨⟨_, default⟩, htarget, rfl⟩ := Option.map_eq_some_iff.1 hkey
  rw [take_of_target? _ step _ default htarget, find?_edit, if_pos rfl, stamped]
  have hkept : Kept grace _ (steps ++ [step]) (after grace steps).frame := kept_touch hkey
  generalize hentry : (after grace steps).find? _ = entry at h
  rw [find?] at hentry
  rw [hentry]
  cases h with
  | gone hgone => exact .held _ _ hkept (holds_create htarget hgone)
  | held value frame _ hholds => exact .held _ _ hkept (hholds.concat hkept)

/-- A step on another key, or on none, keeps an entry that it does not end. -/
theorem Remembers.keep (h : Remembers grace id steps entry) (hkey : step.key? ≠ some id)
    (hclear : step ≠ .clear) (hsweep : step ≠ .sweep) :
    Remembers grace id (steps ++ [step]) entry := by
  cases h with
  | gone hgone => exact .gone fun frame hkept => hgone frame ((kept_concat_iff hkey).1 hkept).1
  | held value frame hkept hholds =>
    have hkept' := (kept_concat_iff hkey).2 ⟨hkept, hclear, fun h => absurd h hsweep⟩
    have hholds' := hholds.concat hkept'
    rw [StoreStep.give_of_key?_ne id value step hkey] at hholds'
    exact .held value frame hkept' hholds'

theorem Remembers.sweep (h : Remembers grace id steps entry) :
    Remembers grace id (steps ++ [.sweep]) (entry.filter (after grace steps).isFresh) := by
  have hkey : StoreStep.sweep.key? ≠ some id := nofun
  cases h with
  | gone hgone => exact .gone fun frame hkept => hgone frame ((kept_concat_iff hkey).1 hkept).1
  | held value frame hkept hholds =>
    have hfresh : (after grace steps).isFresh ⟨id, value, frame⟩ =
        decide ((after grace steps).frame ≤ frame + grace) := by
      rw [isFresh, grace_after]
      exact decide_eq_decide.2 (by simp only; omega)
    rw [Option.filter_some, hfresh]
    by_cases hin : (after grace steps).frame ≤ frame + grace
    · have hkept' := (kept_concat_iff hkey).2 ⟨hkept, nofun, fun _ => hin⟩
      rw [if_pos (decide_eq_true hin)]
      exact .held value frame hkept' (hholds.concat hkept')
    · rw [if_neg (by simpa using hin)]
      refine .gone fun other hother => hin ?_
      obtain ⟨hkept', _, hlast⟩ := (kept_concat_iff hkey).1 hother
      rw [hkept.unique hkept']
      exact hlast rfl

theorem remembers_take (h : Remembers grace id steps ((after grace steps).find? id)) :
    Remembers grace id (steps ++ [step]) ((after grace (steps ++ [step])).find? id) := by
  rw [after_concat]
  by_cases hkey : step.key? = some id
  · exact h.touch hkey
  · cases step with
    | advance => exact h.keep hkey nofun nofun
    | sweep =>
      rw [take, find?_sweep]
      exact h.sweep
    | clear => exact .gone fun frame hkept => ((kept_concat_iff hkey).1 hkept).2.1 rfl
    | read key default =>
      rw [find?_take_of_key?_ne _ _ id key rfl fun heq => hkey (congrArg some heq)]
      exact h.keep hkey nofun nofun
    | write key new =>
      rw [find?_take_of_key?_ne _ _ id key rfl fun heq => hkey (congrArg some heq)]
      exact h.keep hkey nofun nofun
    | edit key default change =>
      rw [find?_take_of_key?_ne _ _ id key rfl fun heq => hkey (congrArg some heq)]
      exact h.keep hkey nofun nofun

theorem remembers_after (grace : Nat) (id : String) (steps : List StoreStep) :
    Remembers grace id steps ((after grace steps).find? id) := by
  induction steps using List.reverseRecOn with
  | nil => exact .gone fun _ => not_kept_nil
  | append_singleton steps step ih => exact remembers_take ih

/-- After any steps a new store has an entry for a key exactly if the last step on the key was
neither cleared away nor swept away since. The entry carries its key, the frame of that step, and
the value last given since it was created; and a step on another key never changes it. -/
theorem find?_after (grace : Nat) (steps : List StoreStep) (id : String) :
    (((after grace steps).find? id).isSome ↔ ∃ frame, Kept grace id steps frame) ∧
      (∀ w, (after grace steps).find? id = some w →
        w.id = id ∧ Kept grace id steps w.lastFrame ∧ Holds grace id steps w.value) ∧
        ∀ step key, step.key? = some key → key ≠ id →
          (after grace (steps ++ [step])).find? id = (after grace steps).find? id := by
  have hremembers := remembers_after grace id steps
  refine ⟨?_, ?_, fun step key hkey hne => ?_⟩
  · generalize (after grace steps).find? id = entry at hremembers
    cases hremembers with
    | gone hgone => simpa using hgone
    | held value frame hkept _ => exact ⟨fun _ => ⟨frame, hkept⟩, fun _ => rfl⟩
  · intro w hw
    rw [hw] at hremembers
    cases hremembers with
    | held value frame hkept hholds => exact ⟨rfl, hkept, hholds⟩
  · rw [after_concat, find?_take_of_key?_ne _ step id key hkey hne]

end Store
end FrameUI.Frame
