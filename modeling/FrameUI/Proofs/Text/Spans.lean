import FrameUI.Text.Blank
import FrameUI.Text.Name

/-!
# Spans

How a text falls into the part that a scan takes and the part that it leaves. A scan over
`a ++ b` takes exactly `a` when every character of `a` passes the test and `b` does not
begin with one that does. Names are the case of name characters and trimming is the case
of blanks.
-/

namespace FrameUI.Text

/-! ### Scans -/

/-- Whether a text does not begin with a character that passes a test. -/
def StopsAt (p : Char → Bool) (s : List Char) : Prop := ∀ c ∈ s.head?, p c = false

theorem stopsAt_nil (p : Char → Bool) : StopsAt p [] := by
  intro c hc
  cases hc

theorem stopsAt_cons (p : Char → Bool) (c : Char) (s : List Char) (h : p c = false) :
    StopsAt p (c :: s) := by
  intro d hd
  cases hd
  exact h

theorem StopsAt.append {p : Char → Bool} {a : List Char} (h : StopsAt p a) (b : List Char)
    (hne : a ≠ []) : StopsAt p (a ++ b) := by
  cases a with
  | nil => exact absurd rfl hne
  | cons c a => exact h

theorem StopsAt.of_append {p : Char → Bool} {a b : List Char} (h : StopsAt p (a ++ b)) :
    StopsAt p a := by
  cases a with
  | nil => exact stopsAt_nil p
  | cons c a => exact h

theorem head_of_stopsAt (p : Char → Bool) (c : Char) (s : List Char)
    (h : StopsAt p (c :: s)) : p c = false := h c rfl

theorem takeWhile_of_stopsAt (p : Char → Bool) (s : List Char) (h : StopsAt p s) :
    s.takeWhile p = [] := by
  cases s with
  | nil => rfl
  | cons c s =>
    have hc := head_of_stopsAt p c s h
    simp [hc]

theorem dropWhile_of_stopsAt (p : Char → Bool) (s : List Char) (h : StopsAt p s) :
    s.dropWhile p = s := by
  cases s with
  | nil => rfl
  | cons c s =>
    have hc := head_of_stopsAt p c s h
    simp [hc]

theorem takeWhile_append_stop (p : Char → Bool) (a b : List Char)
    (ha : ∀ c ∈ a, p c = true) (hb : StopsAt p b) : (a ++ b).takeWhile p = a := by
  rw [List.takeWhile_append_of_pos ha, takeWhile_of_stopsAt p b hb, List.append_nil]

theorem dropWhile_append_stop (p : Char → Bool) (a b : List Char)
    (ha : ∀ c ∈ a, p c = true) (hb : StopsAt p b) : (a ++ b).dropWhile p = b := by
  rw [List.dropWhile_append_of_pos ha, dropWhile_of_stopsAt p b hb]

/-- Where a scan stops is where the text falls apart. -/
theorem append_inj_of_stopsAt (p : Char → Bool) {a b rest more : List Char}
    (ha : ∀ c ∈ a, p c = true) (hb : ∀ c ∈ b, p c = true) (hrest : StopsAt p rest)
    (hmore : StopsAt p more) (h : a ++ rest = b ++ more) : a = b ∧ rest = more := by
  have htaken := congrArg (List.takeWhile p) h
  have hleft := congrArg (List.dropWhile p) h
  rw [takeWhile_append_stop p a rest ha hrest, takeWhile_append_stop p b more hb hmore] at htaken
  rw [dropWhile_append_stop p a rest ha hrest, dropWhile_append_stop p b more hb hmore] at hleft
  exact ⟨htaken, hleft⟩

theorem takeWhile_append_of_stopsAt (p : Char → Bool) (a b : List Char) (hb : StopsAt p b) :
    (a ++ b).takeWhile p = a.takeWhile p := by
  induction a with
  | nil => exact takeWhile_of_stopsAt p b hb
  | cons c a ih =>
    rw [List.cons_append, List.takeWhile_cons, List.takeWhile_cons, ih]

theorem dropWhile_append_of_stopsAt (p : Char → Bool) (a b : List Char) (hb : StopsAt p b) :
    (a ++ b).dropWhile p = a.dropWhile p ++ b := by
  induction a with
  | nil => exact dropWhile_of_stopsAt p b hb
  | cons c a ih =>
    rw [List.cons_append, List.dropWhile_cons, List.dropWhile_cons, ih]
    split
    · rfl
    · rfl

theorem all_of_mem_takeWhile (p : Char → Bool) (s : List Char) :
    ∀ c ∈ s.takeWhile p, p c = true := by
  intro c hc
  have hall := List.all_takeWhile (l := s) (p := p)
  exact List.all_eq_true.mp hall c hc

theorem stopsAt_dropWhile (p : Char → Bool) (s : List Char) : StopsAt p (s.dropWhile p) := by
  intro c hc
  have hh := List.head?_dropWhile_not p s
  rw [Option.mem_def] at hc
  rw [hc] at hh
  simpa using hh

theorem eq_of_dropWhile_eq_cons (p : Char → Bool) (s rest : List Char) (c : Char)
    (h : s.dropWhile p = c :: rest) :
    s = s.takeWhile p ++ c :: rest ∧ p c = false := by
  constructor
  · rw [← h]
    exact List.takeWhile_append_dropWhile.symm
  · have hs := stopsAt_dropWhile p s
    rw [h] at hs
    exact head_of_stopsAt p c rest hs

/-- A scan that stops in a text stops there whatever follows. -/
theorem span_append (p : Char → Bool) (a b rest : List Char) (c : Char)
    (h : a.dropWhile p = c :: rest) :
    (a ++ b).takeWhile p = a.takeWhile p ∧ (a ++ b).dropWhile p = c :: (rest ++ b) := by
  obtain ⟨ha, hc⟩ := eq_of_dropWhile_eq_cons p a rest c h
  have hall := all_of_mem_takeWhile p a
  have hstop := stopsAt_cons p c (rest ++ b) hc
  have hassoc : a ++ b = a.takeWhile p ++ c :: (rest ++ b) := by
    rw [← List.cons_append, ← List.append_assoc, ← ha]
  rw [hassoc, takeWhile_append_stop p _ _ hall hstop, dropWhile_append_stop p _ _ hall hstop]
  exact ⟨rfl, rfl⟩

/-! ### Given beginnings -/

/-- A beginning does not reach into what stands behind a text if it has no such character. -/
theorem dropLead?_append (lead s x : List Char) (hx : ∀ c ∈ lead, StopsAt (· == c) x) :
    dropLead? lead (s ++ x) = (dropLead? lead s).map (· ++ x) := by
  induction lead generalizing s with
  | nil => rfl
  | cons c lead ih =>
    cases s with
    | nil =>
      cases x with
      | nil => rfl
      | cons d x =>
        have hne := head_of_stopsAt (· == c) d x (hx c List.mem_cons_self)
        rw [List.nil_append, dropLead?.eq_3, if_neg (beq_eq_false_iff_ne.mp hne).symm, dropLead?]
        rfl
    | cons d s =>
      rw [List.cons_append, dropLead?, dropLead?]
      split
      · exact ih s fun e he => hx e (List.mem_cons_of_mem c he)
      · rfl

theorem dropLead?_rest_le (lead s rest : List Char) (h : dropLead? lead s = some rest) :
    rest.length ≤ s.length := by
  rw [(dropLead?_eq_some _ _ _).mp h, List.length_append]
  exact Nat.le_add_left _ _

/-! ### Names -/

/-- A name at the front of a text: a run of name characters that the rest does not prolong. -/
structure LongestName (name rest : List Char) : Prop where
  nonempty : name ≠ []
  letters : ∀ c ∈ name, isNameChar c = true
  longest : StopsAt isNameChar rest

theorem LongestName.nameRun_eq {name rest : List Char} (h : LongestName name rest) :
    nameRun (name ++ rest) = name :=
  takeWhile_append_stop isNameChar name rest h.letters h.longest

theorem LongestName.afterName_eq {name rest : List Char} (h : LongestName name rest) :
    afterName (name ++ rest) = rest :=
  dropWhile_append_stop isNameChar name rest h.letters h.longest

theorem LongestName.nameRun_isEmpty {name rest : List Char} (h : LongestName name rest) :
    (nameRun (name ++ rest)).isEmpty = false := by
  rw [h.nameRun_eq]
  cases hn : name with
  | nil => exact absurd hn h.nonempty
  | cons c r => rfl

/-- A text begins with one longest name only. -/
theorem LongestName.unique {name rest name' rest' : List Char} (h : LongestName name rest)
    (h' : LongestName name' rest') (heq : name ++ rest = name' ++ rest') :
    name = name' ∧ rest = rest' := by
  constructor
  · rw [← h.nameRun_eq, ← h'.nameRun_eq, heq]
  · rw [← h.afterName_eq, ← h'.afterName_eq, heq]

theorem longestName_nameRun (s : List Char) (h : (nameRun s).isEmpty = false) :
    LongestName (nameRun s) (afterName s) where
  nonempty := by
    intro hn
    rw [hn] at h
    cases h
  letters := all_of_mem_takeWhile isNameChar s
  longest := stopsAt_dropWhile isNameChar s

theorem stopsAt_of_nameRun (s : List Char) (h : (nameRun s).isEmpty = true) :
    StopsAt isNameChar s := by
  have hall := nameRun_append_afterName s
  rw [List.isEmpty_iff.mp h, List.nil_append] at hall
  rw [← hall]
  exact stopsAt_dropWhile isNameChar s

theorem LongestName.before {name rest : List Char} (h : LongestName name rest)
    (rest' : List Char) (h' : StopsAt isNameChar rest') : LongestName name rest' :=
  ⟨h.nonempty, h.letters, h'⟩

theorem nameChar_bounds (c : Char) (h : isNameChar c = true) :
    45 ≤ c.toNat ∧ c.toNat ≤ 122 := by
  have hupper : c.isUpper = decide (65 ≤ c.toNat ∧ c.toNat ≤ 90) := rfl
  have hlower : c.isLower = (decide (97 ≤ c.toNat) && decide (c.toNat ≤ 122)) := rfl
  have hdigit : c.isDigit = (decide (48 ≤ c.toNat) && decide (c.toNat ≤ 57)) := rfl
  have halpha : c.isAlpha = (c.isUpper || c.isLower) := rfl
  simp only [isNameChar, isAlphanumeric, halpha, hupper, hlower, hdigit, Bool.or_eq_true,
    Bool.and_eq_true, decide_eq_true_eq, beq_iff_eq] at h
  rcases h with (h | h) | h
  · omega
  · subst h
    decide
  · subst h
    decide

/-! ### Blanks -/

theorem isBlank_bounds (c : Char) (h : isBlank c = true) : c.toNat ≤ 32 ∨ 133 ≤ c.toNat := by
  simp [isBlank, blankRanges] at h
  omega

theorem not_blank_of_nameChar (c : Char) (h : isNameChar c = true) : isBlank c = false := by
  have hname := nameChar_bounds c h
  cases hb : isBlank c with
  | false => rfl
  | true =>
    have := isBlank_bounds c hb
    omega

theorem LongestName.stopsAt_blank {name rest : List Char} (h : LongestName name rest)
    (s : List Char) : StopsAt isBlank (name ++ s) := by
  cases hn : name with
  | nil => exact absurd hn h.nonempty
  | cons c r =>
    have hc : c ∈ name := by
      rw [hn]
      exact List.mem_cons_self
    exact stopsAt_cons isBlank c _ (not_blank_of_nameChar c (h.letters c hc))

/-- Whether a text consists of blanks only. -/
def AllBlank (s : List Char) : Prop := ∀ c ∈ s, isBlank c = true

theorem allBlank_nil : AllBlank [] := by
  intro c hc
  cases hc

theorem AllBlank.cons {c : Char} {s : List Char} (hc : isBlank c = true) (h : AllBlank s) :
    AllBlank (c :: s) := by
  intro d hd
  rcases List.mem_cons.mp hd with rfl | hd
  · exact hc
  · exact h d hd

theorem AllBlank.stopsAt {s : List Char} (h : AllBlank s) (p : Char → Bool)
    (hp : ∀ c, isBlank c = true → p c = false) : StopsAt p s :=
  fun c hc => hp c (h c (List.mem_of_mem_head? hc))

theorem trimStart_blanks_append (a b : List Char) (ha : AllBlank a) :
    trimStart (a ++ b) = trimStart b :=
  List.dropWhile_append_of_pos ha

theorem trimStart_of_stopsAt (s : List Char) (h : StopsAt isBlank s) : trimStart s = s :=
  dropWhile_of_stopsAt isBlank s h

theorem exists_blanks_trimStart (s : List Char) :
    ∃ blanks, AllBlank blanks ∧ s = blanks ++ trimStart s :=
  ⟨s.takeWhile isBlank, all_of_mem_takeWhile isBlank s,
    List.takeWhile_append_dropWhile.symm⟩

theorem allBlank_of_trimStart (s : List Char) (h : trimStart s = []) : AllBlank s := by
  obtain ⟨blanks, hb, hs⟩ := exists_blanks_trimStart s
  rw [h, List.append_nil] at hs
  rw [hs]
  exact hb

theorem trimStart_of_allBlank (s : List Char) (h : AllBlank s) : trimStart s = [] := by
  have := trimStart_blanks_append s [] h
  simpa using this

theorem trimEnd_append_blanks (a b : List Char) (hb : AllBlank b) :
    trimEnd (a ++ b) = trimEnd a := by
  have hr : AllBlank b.reverse := fun c hc => hb c (List.mem_reverse.mp hc)
  simp only [trimEnd, List.reverse_append]
  rw [List.dropWhile_append_of_pos hr]

theorem allBlank_of_trimEnd (s : List Char) (h : trimEnd s = []) : AllBlank s := by
  have hrev : s.reverse.dropWhile isBlank = [] := List.reverse_eq_nil_iff.mp h
  have hall := allBlank_of_trimStart s.reverse hrev
  intro c hc
  exact hall c (List.mem_reverse.mpr hc)

theorem trimEnd_append_singleton (a : List Char) (c : Char) (h : isBlank c = false) :
    trimEnd (a ++ [c]) = a ++ [c] := by
  simp only [trimEnd, List.reverse_append, List.reverse_cons, List.reverse_nil,
    List.nil_append, List.singleton_append]
  rw [dropWhile_of_stopsAt isBlank _ (stopsAt_cons isBlank c _ h)]
  simp

@[simp] theorem trimEnd_trimEnd (s : List Char) : trimEnd (trimEnd s) = trimEnd s := by
  simp only [trimEnd, List.reverse_reverse]
  rw [dropWhile_of_stopsAt isBlank _ (stopsAt_dropWhile isBlank s.reverse)]

theorem eq_nil_of_trimEnd_append (s a b : List Char) (h : trimEnd s = a ++ b)
    (hb : AllBlank b) : b = [] := by
  have h1 : trimEnd (a ++ b) = a ++ b := by
    rw [← h, trimEnd_trimEnd]
  rw [trimEnd_append_blanks a b hb] at h1
  have hle : (trimEnd a).length ≤ a.length := by
    have := length_dropWhile_le isBlank a.reverse
    simpa [trimEnd] using this
  have hlen := congrArg List.length h1
  rw [List.length_append] at hlen
  exact List.eq_nil_of_length_eq_zero (by omega)

end FrameUI.Text
