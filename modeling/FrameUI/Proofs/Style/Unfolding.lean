import FrameUI.Proofs.Style.Expansion

/-!
# Unfolding texts

The full expansion of a text, said of the text as a whole: each reference to a variable is replaced
by the full expansion of its value, and every other character is kept. As no name goes across the
place where two parts of a text meet, the parts unfold each by itself; so a single replacement, of
any reference, leaves the expansion as it is and brings it nearer by one. Main statement:
`substitute_unfolds`, that substitution which meets no limit comes to the full expansion.
-/

namespace FrameUI.Style

/-- The full expansion of a text that stands behind another, and how many references are replaced
on the way, also within the values. -/
inductive Unfolds (find? : String → Option String) :
    List Char → List Char → List Char → Nat → Prop
  | nil (before : List Char) : Unfolds find? before [] [] 0
  | keep (before : List Char) (c : Char) (text result : List Char) (n : Nat) :
      (∀ word after, c :: text = word ++ after → IsReference before word after →
        find? (String.ofList word) = none) →
      Unfolds find? (before ++ [c]) text result n →
      Unfolds find? before (c :: text) (c :: result) n
  | replace (before word after : List Char) (value : String) (inner rest : List Char) (m n : Nat) :
      IsReference before word after → find? (String.ofList word) = some value →
      Unfolds find? [] value.toList inner m → Unfolds find? (before ++ word) after rest n →
      Unfolds find? before (word ++ after) (inner ++ rest) (m + n + 1)

variable {find? : String → Option String} {before before' a b text result word after : List Char}
  {k n : Nat}

/-! ### How a text begins -/

theorem unfolds_nil_iff : Unfolds find? before [] result k ↔ result = [] ∧ k = 0 := by
  constructor
  · intro h
    generalize htext : [] = text at h
    cases h with
    | nil => exact ⟨rfl, rfl⟩
    | keep => cases htext
    | replace _ word after value inner rest m n href _ _ _ =>
      exact absurd (List.append_eq_nil_iff.mp htext.symm).1 href.longest.nonempty
  · rintro ⟨rfl, rfl⟩
    exact .nil before

theorem unfolds_cons_iff {c : Char} (hnone : ∀ word after, c :: text = word ++ after →
      IsReference before word after → find? (String.ofList word) = none) :
    Unfolds find? before (c :: text) result k ↔
      ∃ rest, result = c :: rest ∧ Unfolds find? (before ++ [c]) text rest k := by
  constructor
  · intro h
    generalize htext : c :: text = all at h
    cases h with
    | nil => cases htext
    | keep _ d text rest _ _ hrest =>
      obtain ⟨rfl, rfl⟩ := List.cons.inj htext
      exact ⟨rest, rfl, hrest⟩
    | replace _ word after value inner rest m n href hvalue _ _ =>
      rw [hnone word after htext href] at hvalue
      cases hvalue
  · rintro ⟨rest, rfl, hrest⟩
    exact .keep before c text rest k hnone hrest

theorem unfolds_reference_iff {value : String} (href : IsReference before word after)
    (hvalue : find? (String.ofList word) = some value) :
    Unfolds find? before (word ++ after) result k ↔
      ∃ inner rest m n, result = inner ++ rest ∧ k = m + n + 1 ∧
        Unfolds find? [] value.toList inner m ∧ Unfolds find? (before ++ word) after rest n := by
  constructor
  · intro h
    generalize htext : word ++ after = text at h
    cases h with
    | nil => exact absurd (List.append_eq_nil_iff.mp htext).1 href.longest.nonempty
    | keep _ c text result _ hnone _ =>
      rw [hnone word after htext.symm href] at hvalue
      cases hvalue
    | replace _ word' after' value' inner rest m n href' hvalue' hinner hrest =>
      obtain ⟨rfl, rfl⟩ := href.longest.unique href'.longest htext
      obtain rfl := Option.some.inj (hvalue.symm.trans hvalue')
      exact ⟨inner, rest, m, n, rfl, rfl, hinner, hrest⟩
  · rintro ⟨inner, rest, m, n, rfl, rfl, hinner, hrest⟩
    exact .replace before word after value inner rest m n href hvalue hinner hrest

/-- A text has one full expansion, and it takes one number of replacements. -/
theorem Unfolds.unique {result' : List Char} {k' : Nat} (h : Unfolds find? before text result k)
    (h' : Unfolds find? before text result' k') : result = result' ∧ k = k' := by
  induction h generalizing result' k' with
  | nil before =>
    obtain ⟨rfl, rfl⟩ := unfolds_nil_iff.mp h'
    exact ⟨rfl, rfl⟩
  | keep before c text result n hnone _ ih =>
    obtain ⟨rest, rfl, hrest⟩ := (unfolds_cons_iff hnone).mp h'
    obtain ⟨rfl, rfl⟩ := ih hrest
    exact ⟨rfl, rfl⟩
  | replace before word after value inner rest m n href hvalue _ _ ihinner ihrest =>
    obtain ⟨inner', rest', m', n', rfl, rfl, hinner, hrest⟩ :=
      (unfolds_reference_iff href hvalue).mp h'
    obtain ⟨rfl, rfl⟩ := ihinner hinner
    obtain ⟨rfl, rfl⟩ := ihrest hrest
    exact ⟨rfl, rfl⟩

/-! ### Texts side by side -/

/-- No name goes across the place where two texts meet. -/
def Apart (a b : List Char) : Prop :=
  ∀ c ∈ a.getLast?, Text.isNameChar c = true → Text.StopsAt Text.isNameChar b

theorem apart_of_stopsAt (a : List Char) (h : Text.StopsAt Text.isNameChar b) : Apart a b :=
  fun _ _ _ => h

theorem IsReference.apart_before (h : IsReference before word after) (b : List Char) :
    Apart before b := by
  intro c hc hname
  rw [(h.behind c hc).1] at hname
  cases hname

theorem Apart.of_append (h : Apart (before ++ a) b) : Apart a b := by
  intro c hc
  refine h c ?_
  rw [List.getLast?_append, Option.mem_def.mp hc]
  rfl

theorem Apart.of_cons {c : Char} (h : Apart (c :: a) b) : Apart a b := by
  have hcons : Apart ([c] ++ a) b := h
  exact hcons.of_append

theorem Apart.stopsAt (h : Apart a b) (hne : a ≠ []) (hname : ∀ c ∈ a, Text.isNameChar c = true) :
    Text.StopsAt Text.isNameChar b :=
  h _ (List.getLast?_eq_some_getLast hne) (hname _ (List.getLast_mem hne))

/-- A reference in the first of two texts is one in both together. -/
theorem IsReference.append (h : IsReference before word after) (hapart : Apart (word ++ after) b) :
    IsReference before word (after ++ b) := by
  refine ⟨h.longest.before _ ?_, h.front, h.behind⟩
  by_cases hnil : after = []
  · subst hnil
    rw [List.append_nil] at hapart
    exact hapart.stopsAt h.longest.nonempty h.longest.letters
  · exact h.longest.longest.append b hnil

/-- A reference that begins in the first of two texts lies in it. -/
theorem IsReference.of_append (h : IsReference before word after) (hapart : Apart a b) (hne : a ≠ [])
    (heq : a ++ b = word ++ after) :
    ∃ rest, a = word ++ rest ∧ after = rest ++ b ∧ IsReference before word rest := by
  rcases List.append_eq_append_iff.mp heq with ⟨gap, hword, hb⟩ | ⟨rest, ha, hafter⟩
  · by_cases hgap : gap = []
    · subst hgap
      rw [List.append_nil] at hword
      subst hword
      exact ⟨[], (List.append_nil _).symm, hb.symm, h.longest.before _ (Text.stopsAt_nil _),
        h.front, h.behind⟩
    · -- a word that went on into `b` would be a name across the join
      have hstops := hapart.stopsAt hne fun c hc =>
        h.longest.letters c (by rw [hword]; exact List.mem_append_left _ hc)
      obtain ⟨c, gap', rfl⟩ := List.exists_cons_of_ne_nil hgap
      have hname := h.longest.letters c (by rw [hword]; simp)
      rw [hb] at hstops
      rw [hstops c rfl] at hname
      cases hname
  · refine ⟨rest, ha, hafter, h.longest.before _ ?_, h.front, h.behind⟩
    have hstops := h.longest.longest
    rw [hafter] at hstops
    exact hstops.of_append

/-! ### What stands before a text -/

/-- Of what stands before a text only the last character counts. -/
theorem Unfolds.of_last (h : Unfolds find? before text result n)
    (hlast : before'.getLast? = before.getLast?) : Unfolds find? before' text result n := by
  induction h generalizing before' with
  | nil before => exact .nil before'
  | keep before c text result n hnone _ ih =>
    refine .keep before' c text result n ?_ (ih (by simp))
    intro word after heq href
    exact hnone word after heq (href.of_behind hlast.symm)
  | replace before word after value inner rest m n href hvalue hinner _ _ ih =>
    refine .replace before' word after value inner rest m n (href.of_behind hlast) hvalue hinner ?_
    have hne := href.longest.nonempty
    exact ih (by rw [getLast?_append_of_ne_nil _ _ hne, getLast?_append_of_ne_nil _ _ hne])

/-- What stands before a text may be exchanged if it lets the same references begin there. -/
theorem Unfolds.of_front (h : Unfolds find? before text result n)
    (hfront : ∀ word after, text = word ++ after →
      (IsReference before' word after ↔ IsReference before word after)) :
    Unfolds find? before' text result n := by
  cases h with
  | nil => exact .nil before'
  | keep _ c text result n hnone hrest =>
    refine .keep before' c text result n ?_ (hrest.of_last (by simp))
    intro word after heq href
    exact hnone word after heq ((hfront word after heq).mp href)
  | replace _ word after value inner rest m n href hvalue hinner hrest =>
    have hne := href.longest.nonempty
    refine .replace before' word after value inner rest m n ((hfront word after rfl).mpr href)
      hvalue hinner (hrest.of_last ?_)
    rw [getLast?_append_of_ne_nil _ _ hne, getLast?_append_of_ne_nil _ _ hne]

theorem Unfolds.of_stopsAt (h : Unfolds find? before text result n)
    (hstops : Text.StopsAt Text.isNameChar text) : Unfolds find? before' text result n := by
  refine h.of_front fun word after heq => ?_
  have hnone : ∀ x, ¬ IsReference x word after := by
    intro x href
    obtain ⟨c, word', hword⟩ := List.exists_cons_of_ne_nil href.longest.nonempty
    have hname := href.longest.letters c (by rw [hword]; exact List.mem_cons_self)
    rw [hstops c (by rw [heq, hword]; rfl)] at hname
    cases hname
  exact ⟨fun href => absurd href (hnone _), fun href => absurd href (hnone _)⟩

theorem unfolds_behind_iff (h : IsReference before word after) :
    Unfolds find? before text result n ↔ Unfolds find? [] text result n := by
  have hfront : ∀ word' after', IsReference before word' after' ↔ IsReference [] word' after' :=
    fun word' after' => ⟨fun href => ⟨href.longest, href.front, nofun⟩,
      fun href => ⟨href.longest, href.front, h.behind⟩⟩
  exact ⟨fun hunfolds => hunfolds.of_front fun _ _ _ => (hfront _ _).symm,
    fun hunfolds => hunfolds.of_front fun _ _ _ => hfront _ _⟩

/-! ### The parts of a text -/

theorem Unfolds.append {ra rb : List Char} {m : Nat} (ha : Unfolds find? before a ra m)
    (hb : Unfolds find? (before ++ a) b rb n) (hapart : Apart a b) :
    Unfolds find? before (a ++ b) (ra ++ rb) (m + n) := by
  induction ha with
  | nil before =>
    rw [List.append_nil] at hb
    simpa using hb
  | keep before c text result m hnone _ ih =>
    refine .keep before c (text ++ b) (result ++ rb) (m + n) ?_ (ih ?_ ?_)
    · intro word after heq href
      obtain ⟨rest, hword, _, href'⟩ := href.of_append hapart (by simp) heq
      exact hnone word rest hword href'
    · simpa using hb
    · exact hapart.of_cons
  | replace before word after value inner rest m k href hvalue hinner _ _ ih =>
    have hrest := ih (by simpa using hb) hapart.of_append
    have hall := Unfolds.replace before word (after ++ b) value inner (rest ++ rb) m (k + n)
      (href.append hapart) hvalue hinner hrest
    rw [List.append_assoc, List.append_assoc]
    have hcount : m + k + 1 + n = m + (k + n) + 1 := by omega
    rw [hcount]
    exact hall

theorem Unfolds.split (h : Unfolds find? before text result k) (heq : text = a ++ b)
    (hapart : Apart a b) :
    ∃ ra rb m n, result = ra ++ rb ∧ k = m + n ∧ Unfolds find? before a ra m ∧
      Unfolds find? (before ++ a) b rb n := by
  induction h generalizing a with
  | nil before =>
    obtain ⟨rfl, rfl⟩ := List.append_eq_nil_iff.mp heq.symm
    exact ⟨[], [], 0, 0, rfl, rfl, .nil before, .nil _⟩
  | keep before c text result k hnone hrest ih =>
    cases a with
    | nil =>
      subst heq
      refine ⟨[], c :: result, 0, k, rfl, by omega, .nil before, ?_⟩
      rw [List.append_nil]
      exact .keep before c text result k hnone hrest
    | cons d a =>
      obtain ⟨rfl, rfl⟩ := List.cons.inj heq
      obtain ⟨ra, rb, m, n, rfl, rfl, ha, hb⟩ := ih rfl hapart.of_cons
      refine ⟨c :: ra, rb, m, n, rfl, rfl, .keep before c a ra m ?_ ha, by simpa using hb⟩
      intro word after hword href
      refine hnone word (after ++ b) ?_ (href.append (hword ▸ hapart))
      show c :: a ++ b = word ++ (after ++ b)
      rw [hword, List.append_assoc]
  | replace before word after value inner rest i j href hvalue hinner hrest _ ih =>
    by_cases hnil : a = []
    · subst hnil
      refine ⟨[], inner ++ rest, 0, i + j + 1, rfl, by omega, .nil before, ?_⟩
      rw [List.append_nil, ← List.nil_append b, ← heq]
      exact .replace before word after value inner rest i j href hvalue hinner hrest
    · obtain ⟨part, rfl, rfl, href'⟩ := href.of_append hapart hnil heq.symm
      obtain ⟨ra, rb, m, n, rfl, rfl, ha, hb⟩ := ih rfl hapart.of_append
      refine ⟨inner ++ ra, rb, i + m + 1, n, by simp, by omega, ?_, by simpa using hb⟩
      exact .replace before word part value inner ra i m href' hvalue hinner ha

theorem unfolds_append_iff (hapart : Apart a b) :
    Unfolds find? before (a ++ b) result k ↔
      ∃ ra rb m n, result = ra ++ rb ∧ k = m + n ∧ Unfolds find? before a ra m ∧
        Unfolds find? (before ++ a) b rb n := by
  constructor
  · exact fun h => h.split rfl hapart
  · rintro ⟨ra, rb, m, n, rfl, rfl, ha, hb⟩
    exact ha.append hb hapart

/-! ### Single replacements -/

/-- To replace one reference is to come one step nearer to the full expansion. -/
theorem Expands.unfolds_iff {s t : List Char} (h : Expands find? s t) :
    Unfolds find? [] s result k ↔ ∃ n, k = n + 1 ∧ Unfolds find? [] t result n := by
  obtain ⟨before, word, after, value, href, hvalue⟩ := h
  -- neither the word nor the value in its place forms a name with what stands around it
  have hstops := href.longest.longest
  rw [unfolds_append_iff (href.apart_before _), List.nil_append]
  constructor
  · rintro ⟨ra, rb, m, n, rfl, rfl, hbefore, hrest⟩
    obtain ⟨inner, rest, i, j, rfl, rfl, hinner, hafter⟩ :=
      (unfolds_reference_iff href hvalue).mp hrest
    have hvalue' := (unfolds_behind_iff href).mpr hinner
    have hjoined := hvalue'.append (hafter.of_stopsAt hstops) (apart_of_stopsAt _ hstops)
    exact ⟨m + (i + j), by omega, hbefore.append hjoined (href.apart_before _)⟩
  · rintro ⟨n, rfl, hunfolds⟩
    obtain ⟨ra, rb, m, j, rfl, rfl, hbefore, hrest⟩ := hunfolds.split rfl (href.apart_before _)
    obtain ⟨inner, rest, i, j, rfl, rfl, hinner, hafter⟩ :=
      hrest.split rfl (apart_of_stopsAt _ hstops)
    refine ⟨ra, inner ++ rest, m, i + j + 1, rfl, by omega, hbefore, ?_⟩
    exact (unfolds_reference_iff href hvalue).mpr ⟨inner, rest, i, j, rfl, rfl,
      (unfolds_behind_iff href).mp hinner, hafter.of_stopsAt hstops⟩

theorem IsExpanded.find?_eq_none {s : List Char} (h : IsExpanded find? s)
    (heq : s = before ++ (word ++ after)) (href : IsReference before word after) :
    find? (String.ofList word) = none := by
  cases hvalue : find? (String.ofList word) with
  | none => rfl
  | some value =>
    rw [heq] at h
    exact absurd (.replace before word after value href hvalue) (h _)

/-- Where no reference names a variable, nothing is replaced. -/
theorem unfolds_self (h : ∀ gap word after, text = gap ++ (word ++ after) →
      IsReference (before ++ gap) word after → find? (String.ofList word) = none) :
    Unfolds find? before text text 0 := by
  induction text generalizing before with
  | nil => exact .nil before
  | cons c text ih =>
    refine .keep before c text text 0 ?_ (ih ?_)
    · intro word after heq href
      exact h [] word after heq (by simpa using href)
    · intro gap word after heq href
      exact h (c :: gap) word after (by rw [heq]; rfl) (by simpa using href)

theorem unfolds_of_isExpanded (h : IsExpanded find? text) : Unfolds find? [] text text 0 :=
  unfolds_self fun _ _ _ heq href => h.find?_eq_none heq href

/-! ### Rounds -/

/-- Each round makes one replacement, and finds the end if none is left. -/
theorem Unfolds.expandRounds {vars : Bindings} (limit : Nat)
    (h : Unfolds vars.find? [] text result n) :
    ∃ t, Style.expandRounds vars limit text = (t, decide (n < limit)) ∧
      Unfolds vars.find? [] t result (n - limit) := by
  induction limit generalizing text n with
  | zero => exact ⟨text, by simp [Style.expandRounds], h⟩
  | succ limit ih =>
    rw [Style.expandRounds]
    cases hround : expandOnce? vars text with
    | none =>
      have hsame := unfolds_of_isExpanded (isExpanded_of_expandOnce? vars text hround)
      obtain ⟨rfl, rfl⟩ := h.unique hsame
      exact ⟨result, by simp, by simpa using h⟩
    | some next =>
      obtain ⟨m, rfl, hnext⟩ := (expands_of_expandOnce? vars _ _ hround).unfolds_iff.mp h
      obtain ⟨t, hrounds, ht⟩ := ih hnext
      exact ⟨t, by simpa using hrounds, by simpa using ht⟩

theorem Unfolds.expandRounds_of_lt {vars : Bindings} {limit : Nat}
    (h : Unfolds vars.find? [] text result n) (hlt : n < limit) :
    Style.expandRounds vars limit text = (result, true) := by
  obtain ⟨t, hrounds, ht⟩ := h.expandRounds limit
  rw [decide_eq_true hlt] at hrounds
  have hend := (expandsTo_of_expandRounds vars limit text t hrounds).2
  obtain ⟨rfl, _⟩ := ht.unique (unfolds_of_isExpanded hend)
  exact hrounds

/-- The full expansion is the end of every way to replace references one by one. -/
theorem exists_unfolds_iff {s t : List Char} :
    (∃ n, Unfolds find? [] s t n) ↔ ExpandsTo find? s t ∧ IsExpanded find? t := by
  constructor
  · rintro ⟨n, h⟩
    -- any number of rounds beyond `n` will do
    let vars : Bindings := ⟨find?, 0⟩
    have hrounds : expandRounds vars (n + 1) s = (t, true) :=
      Unfolds.expandRounds_of_lt h (Nat.lt_succ_self n)
    exact expandsTo_of_expandRounds vars (n + 1) s t hrounds
  · rintro ⟨hsteps, hend⟩
    induction hsteps using Relation.ReflTransGen.head_induction_on with
    | refl => exact ⟨0, unfolds_of_isExpanded hend⟩
    | head hstep _ ih =>
      obtain ⟨n, hunfolds⟩ := ih
      exact ⟨n + 1, hstep.unfolds_iff.mpr ⟨n, rfl, hunfolds⟩⟩

/-! ### Substitution -/

/-- Substitution that meets no limit comes to the full expansion of the text, in which no reference
names a variable, and which is its own expansion. The assumption on the count holds of every table
and of every scope within one. -/
theorem substitute_unfolds (vars : Bindings) (hcounted : vars.Counted) (value : String)
    (hquiet : NoLimitMet (substitute vars value).records) :
    (∀ result, (∃ n, Unfolds vars.find? [] value.toList result n) ↔
        result = (substitute vars value).value.toList) ∧
      (∀ before word after, (substitute vars value).value.toList = before ++ (word ++ after) →
        IsReference before word after → vars.find? (String.ofList word) = none) ∧
      substitute vars (substitute vars value).value = pure (substitute vars value).value := by
  have hfull := expandsTo_substitute vars hcounted value hquiet
  refine ⟨fun result => ⟨?_, ?_⟩,
    fun before word after heq href => hfull.2.find?_eq_none heq href,
    substitute_of_isExpanded vars _ hfull.2⟩
  · rintro ⟨n, hunfolds⟩
    obtain ⟨_, hunfolds'⟩ := exists_unfolds_iff.mpr hfull
    exact (hunfolds.unique hunfolds').1
  · rintro rfl
    exact exists_unfolds_iff.mpr hfull

/-- Variables around a scope, and its own, where one of the scope refers to one around it, one is
empty, and one that the value does not reach refers to itself. -/
def nestedScope : Bindings :=
  .layered (.ofList [("edge", "#e1, gap"), ("gap", "9"), ("loop", "loop")])
    (.ofList [("e1", "4"), ("gap", ""), ("pad", "edge(gap) e1")])

theorem substitute_unfolds_nestedScope :
    NoLimitMet (substitute nestedScope "#pad 0xFF; pad-gap(pad,e1)").records ∧
      (∃ n, Unfolds nestedScope.find? [] "#pad 0xFF; pad-gap(pad,e1)".toList
        "#pad 0xFF; pad-gap(#e1, () 4,4)".toList n) ∧
      substitute nestedScope "#pad 0xFF; pad-gap(#e1, () 4,4)" =
        pure "#pad 0xFF; pad-gap(#e1, () 4,4)" := by
  have hquiet : NoLimitMet (substitute nestedScope "#pad 0xFF; pad-gap(pad,e1)").records := by
    decide +kernel
  have hvalue : (substitute nestedScope "#pad 0xFF; pad-gap(pad,e1)").value =
      "#pad 0xFF; pad-gap(#e1, () 4,4)" := by
    decide +kernel
  obtain ⟨hfull, _, hagain⟩ :=
    substitute_unfolds nestedScope (Bindings.counted_layered _ _) "#pad 0xFF; pad-gap(pad,e1)"
      hquiet
  rw [hvalue] at hfull hagain
  exact ⟨hquiet, (hfull _).mpr rfl, hagain⟩

end FrameUI.Style
