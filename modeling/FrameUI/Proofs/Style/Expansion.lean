import FrameUI.Proofs.Text.Spans
import FrameUI.Style.Variables
import Mathlib.Logic.Relation

/-!
# Expanding references

Substitution as a rewriting of texts: any one reference that names a variable may be replaced.
Two replacements in one text do not get in each other's way, so the order does not matter, and
a text from which nothing can be replaced any more is reached in one way only. Main statement:
substitution under some of the variables and then under all of them comes to the same as any
other such pair, as long as no limit of rounds is met.
-/

namespace FrameUI.Style

/-! ### References in a text -/

/-- A reference between two parts of a text: a whole run of name characters that begins with a
letter or `_` and does not follow a `#`. -/
structure IsReference (before word after : List Char) : Prop where
  longest : Text.LongestName word after
  front : (word.head?.any fun c => c.isAlpha || c == '_') = true
  behind : ∀ c ∈ before.getLast?, Text.isNameChar c = false ∧ c ≠ '#'

/-- One reference to a variable is replaced by the text of the variable. -/
inductive Expands (find? : String → Option String) : List Char → List Char → Prop
  | replace (before word after : List Char) (value : String) :
      IsReference before word after → find? (String.ofList word) = some value →
      Expands find? (before ++ (word ++ after)) (before ++ (value.toList ++ after))

/-- Nothing in a text can be replaced. -/
def IsExpanded (find? : String → Option String) (s : List Char) : Prop :=
  ∀ t, ¬ Expands find? s t

/-- A part that ends in a run of name characters is followed by no reference. -/
theorem IsReference.not_behind_name {before run word after : List Char}
    (h : IsReference (before ++ run) word after) (hne : run ≠ [])
    (hrun : ∀ c ∈ run, Text.isNameChar c = true) : False := by
  have hlast : run.getLast hne ∈ (before ++ run).getLast? := by
    rw [List.getLast?_append, List.getLast?_eq_some_getLast hne]
    rfl
  have hname := hrun _ (List.getLast_mem hne)
  rw [(h.behind _ hlast).1] at hname
  cases hname

/-- Two references in one text are the same or stand apart. -/
theorem IsReference.apart {before word after gap word' after' : List Char}
    (h : IsReference before word after) (h' : IsReference (before ++ gap) word' after')
    (heq : word ++ after = gap ++ (word' ++ after')) :
    (gap = [] ∧ word = word' ∧ after = after') ∨
      ∃ between, between ≠ [] ∧ gap = word ++ between ∧ after = between ++ (word' ++ after') := by
  by_cases hgap : gap = []
  · subst hgap
    obtain ⟨hword, hafter⟩ := h.longest.unique h'.longest heq
    exact Or.inl ⟨rfl, hword, hafter⟩
  · right
    rcases List.append_eq_append_iff.1 heq with ⟨between, hgap', hafter⟩ | ⟨inner, hword, _⟩
    · refine ⟨between, ?_, hgap', hafter⟩
      intro hnil
      subst hnil
      rw [List.append_nil] at hgap'
      subst hgap'
      exact h'.not_behind_name h.longest.nonempty h.longest.letters
    · refine (h'.not_behind_name hgap fun c hc => ?_).elim
      exact h.longest.letters c (by rw [hword]; exact List.mem_append_left _ hc)

/-! ### Replacing in any order -/

variable {find? : String → Option String}

theorem IsReference.of_behind {before before' word after : List Char}
    (h : IsReference before word after) (hlast : before'.getLast? = before.getLast?) :
    IsReference before' word after :=
  ⟨h.longest, h.front, by rw [hlast]; exact h.behind⟩

theorem getLast?_append_of_ne_nil (a b : List Char) (h : b ≠ []) :
    (a ++ b).getLast? = b.getLast? := by
  rw [List.getLast?_append, List.getLast?_eq_some_getLast h]
  rfl

theorem isExpanded_of_none (h : ∀ name, find? name = none) (s : List Char) :
    IsExpanded find? s := by
  intro t ht
  obtain ⟨_, word, _, _, _, hvalue⟩ := ht
  rw [h (String.ofList word)] at hvalue
  cases hvalue

/-- Two references that stand apart can be replaced one after the other, in either order. -/
theorem Expands.join_apart {before word between word' after : List Char} {value value' : String}
    (hbetween : between ≠ [])
    (h : IsReference before word (between ++ (word' ++ after)))
    (hvalue : find? (String.ofList word) = some value)
    (h' : IsReference (before ++ (word ++ between)) word' after)
    (hvalue' : find? (String.ofList word') = some value') :
    ∃ u, Expands find? (before ++ (value.toList ++ (between ++ (word' ++ after)))) u ∧
      Expands find? (before ++ (word ++ between) ++ (value'.toList ++ after)) u := by
  refine ⟨before ++ (value.toList ++ (between ++ (value'.toList ++ after))), ?_, ?_⟩
  · have hright : IsReference (before ++ (value.toList ++ between)) word' after := by
      apply h'.of_behind
      rw [← List.append_assoc, ← List.append_assoc, getLast?_append_of_ne_nil _ _ hbetween,
        getLast?_append_of_ne_nil _ _ hbetween]
    have hstep := Expands.replace _ _ _ _ hright hvalue'
    simpa using hstep
  · have hstops : Text.StopsAt Text.isNameChar (between ++ (value'.toList ++ after)) :=
      h.longest.longest.of_append.append _ hbetween
    have hleft : IsReference before word (between ++ (value'.toList ++ after)) :=
      ⟨h.longest.before _ hstops, h.front, h.behind⟩
    have hstep := Expands.replace _ _ _ _ hleft hvalue
    simpa using hstep

/-- Two ways to replace one reference come to the same text, at once or after one more step. -/
theorem Expands.diamond {s t u : List Char} (ht : Expands find? s t) (hu : Expands find? s u) :
    t = u ∨ ∃ v, Expands find? t v ∧ Expands find? u v := by
  obtain ⟨before, word, after, value, h, hvalue⟩ := ht
  generalize hs : before ++ (word ++ after) = s at hu
  obtain ⟨before', word', after', value', h', hvalue'⟩ := hu
  -- The first reference is the one with less text before it.
  rcases List.append_eq_append_iff.1 hs with ⟨gap, hbefore, hrest⟩ | ⟨gap, hbefore, hrest⟩
  · subst hbefore
    rcases h.apart h' hrest with ⟨rfl, rfl, rfl⟩ | ⟨between, hne, rfl, rfl⟩
    · rw [hvalue] at hvalue'
      cases hvalue'
      left
      simp
    · exact Or.inr (Expands.join_apart hne h hvalue h' hvalue')
  · subst hbefore
    rcases h'.apart h hrest with ⟨rfl, rfl, rfl⟩ | ⟨between, hne, rfl, rfl⟩
    · rw [hvalue] at hvalue'
      cases hvalue'
      left
      simp
    · obtain ⟨v, hv, hv'⟩ := Expands.join_apart hne h' hvalue' h hvalue
      exact Or.inr ⟨v, hv', hv⟩

abbrev ExpandsTo (find? : String → Option String) : List Char → List Char → Prop :=
  Relation.ReflTransGen (Expands find?)

theorem IsExpanded.eq_of_expandsTo {s t : List Char} (hs : IsExpanded find? s)
    (h : ExpandsTo find? s t) : t = s := by
  rcases h.cases_head with heq | ⟨u, hu, _⟩
  · exact heq.symm
  · exact absurd hu (hs u)

/-- However the references of a text are replaced, it ends in one text. -/
theorem ExpandsTo.unique {s t u : List Char} (ht : ExpandsTo find? s t)
    (hu : ExpandsTo find? s u) (htend : IsExpanded find? t) (huend : IsExpanded find? u) :
    t = u := by
  have hjoin : Relation.Join (ExpandsTo find?) t u := by
    apply Relation.church_rosser _ ht hu
    intro a b c hb hc
    rcases hb.diamond hc with rfl | ⟨d, hbd, hcd⟩
    · exact ⟨b, .refl, .refl⟩
    · exact ⟨d, .single hbd, .single hcd⟩
  obtain ⟨v, htv, huv⟩ := hjoin
  rw [← htend.eq_of_expandsTo htv, huend.eq_of_expandsTo huv]

theorem ExpandsTo.mono {small large : String → Option String} {s t : List Char}
    (h : ExpandsTo small s t)
    (hsub : ∀ name value, small name = some value → large name = some value) :
    ExpandsTo large s t := by
  refine Relation.ReflTransGen.mono ?_ _ _ h
  intro a b hab
  obtain ⟨before, word, after, value, href, hvalue⟩ := hab
  exact .replace before word after value href (hsub _ _ hvalue)

/-! ### The runs of a text -/

/-- Runs in turn, as a text falls into them. -/
inductive Alternate : List Run → Prop
  | nil : Alternate []
  | cons (r : Run) (rs : List Run) : r.letters ≠ [] →
      (∀ c ∈ r.letters, Text.isNameChar c = r.isWord) →
      (∀ next ∈ rs.head?, next.isWord ≠ r.isWord) → Alternate rs → Alternate (r :: rs)

theorem alternate_runs (s : List Char) : Alternate (runs s) := by
  induction s with
  | nil => exact .nil
  | cons c s ih =>
    rw [runs]
    cases hruns : runs s with
    | nil => exact .cons _ _ (by simp) (by simp) (by simp) .nil
    | cons r rs =>
      rw [hruns] at ih
      by_cases hsame : r.isWord = Text.isNameChar c
      · obtain _ | ⟨_, _, _, hletters, hnext, hrest⟩ := ih
        simp only [hsame, if_true]
        refine .cons _ _ (by simp) ?_ (by rw [← hsame]; exact hnext) hrest
        intro d hd
        rcases List.mem_cons.1 hd with rfl | hd
        · rfl
        · rw [hletters d hd, hsame]
      · simp only [hsame, if_false]
        refine .cons _ _ (by simp) (by simp) ?_ ih
        intro next hnext
        cases hnext
        exact hsame

theorem Alternate.stopsAt {r : Run} {rs : List Run} (h : Alternate (r :: rs))
    (hword : r.isWord = true) : Text.StopsAt Text.isNameChar (joinRuns rs) := by
  obtain _ | ⟨_, _, _, _, hnext, hrest⟩ := h
  obtain _ | ⟨next, rs, hne, hletters, _, _⟩ := hrest
  · exact Text.stopsAt_nil _
  · have hgap : next.isWord = false := by
      have hdiffer := hnext next rfl
      rw [hword] at hdiffer
      simpa using hdiffer
    obtain ⟨c, letters, heq⟩ := List.exists_cons_of_ne_nil hne
    have hc := hletters c (by rw [heq]; exact List.mem_cons_self)
    rw [joinRuns, List.flatMap_cons, heq]
    exact Text.stopsAt_cons _ _ _ (hc.trans hgap)

/-- What stands before some runs: whether it ends in a `#`, and no name that the first of them
would prolong. -/
structure Precedes (before : List Char) (afterHash : Bool) (rs : List Run) : Prop where
  hash : afterHash = (before.getLast? == some '#')
  name : ∀ r ∈ rs.head?, r.isWord = true → ∀ c ∈ before.getLast?, Text.isNameChar c = false

theorem Precedes.next {before : List Char} {r : Run} {rs : List Run}
    (h : Alternate (r :: rs)) : Precedes (before ++ r.letters) r.endsInHash rs := by
  obtain _ | ⟨_, _, hne, hletters, hnext, _⟩ := h
  have hlast := getLast?_append_of_ne_nil before r.letters hne
  refine ⟨by rw [hlast]; rfl, ?_⟩
  intro next hhead hword c hc
  rw [hlast] at hc
  rw [hletters c (List.mem_of_getLast? hc)]
  have hdiffer := hnext next hhead
  rw [hword] at hdiffer
  simpa using hdiffer.symm

/-- The word at the front of some runs is a reference in the text exactly if it counts as one
among the runs. -/
theorem isReference_front {before : List Char} {afterHash : Bool} {r : Run} {rs : List Run}
    (hprecedes : Precedes before afterHash (r :: rs)) (h : Alternate (r :: rs))
    (href : r.isReference afterHash = true) :
    IsReference before r.letters (joinRuns rs) := by
  simp only [Run.isReference, Bool.and_eq_true, Bool.not_eq_true'] at href
  obtain ⟨⟨hword, hhash⟩, hfront⟩ := href
  have hstops := h.stopsAt hword
  obtain _ | ⟨_, _, hne, hletters, _, _⟩ := h
  refine ⟨⟨hne, fun c hc => (hletters c hc).trans hword, hstops⟩, hfront, ?_⟩
  intro c hc
  refine ⟨hprecedes.name r rfl hword c hc, ?_⟩
  rintro rfl
  rw [hprecedes.hash, Option.mem_def.1 hc] at hhash
  cases hhash

theorem isReference_of_front {before after : List Char} {afterHash : Bool} {r : Run}
    (hhash : afterHash = (before.getLast? == some '#')) (hword : r.isWord = true)
    (h : IsReference before r.letters after) : r.isReference afterHash = true := by
  simp only [Run.isReference, Bool.and_eq_true, Bool.not_eq_true']
  refine ⟨⟨hword, ?_⟩, h.front⟩
  rw [hhash]
  cases hlast : before.getLast? with
  | none => rfl
  | some c => simpa using (h.behind c hlast).2

/-- A reference is the word at the front of some runs, or it stands behind the first of them. -/
theorem front_or_behind {before gap word after : List Char} {r : Run} {rs : List Run}
    (h : Alternate (r :: rs)) (href : IsReference (before ++ gap) word after)
    (heq : r.letters ++ joinRuns rs = gap ++ (word ++ after)) :
    (gap = [] ∧ r.isWord = true ∧ word = r.letters) ∨
      ∃ more, gap = r.letters ++ more ∧ joinRuns rs = more ++ (word ++ after) := by
  have hstops := h.stopsAt
  obtain _ | ⟨_, _, hne, hletters, _, _⟩ := h
  rcases List.append_eq_append_iff.1 heq with ⟨more, hgap, hmore⟩ | ⟨inner, hrun, hinner⟩
  · exact Or.inr ⟨more, hgap, hmore⟩
  · by_cases hnil : inner = []
    · subst hnil
      rw [List.append_nil] at hrun
      exact Or.inr ⟨[], by rw [hrun, List.append_nil], hinner.symm⟩
    · obtain ⟨c, word', hword⟩ := List.exists_cons_of_ne_nil href.longest.nonempty
      obtain ⟨d, inner', rfl⟩ := List.exists_cons_of_ne_nil hnil
      have hcd : c = d := by
        rw [hword, List.cons_append, List.cons_append] at hinner
        exact (List.cons.inj hinner).1
      have hisWord : r.isWord = true := by
        rw [← hletters d (by rw [hrun]; simp), ← hcd]
        exact href.longest.letters c (by rw [hword]; exact List.mem_cons_self)
      have hnames : ∀ c ∈ r.letters, Text.isNameChar c = true :=
        fun c hc => (hletters c hc).trans hisWord
      have hlongest : Text.LongestName r.letters (joinRuns rs) := ⟨hne, hnames, hstops hisWord⟩
      by_cases hgap : gap = []
      · subst hgap
        exact Or.inl ⟨rfl, hisWord, (href.longest.unique hlongest heq.symm).1⟩
      · refine (href.not_behind_name hgap fun c hc => ?_).elim
        exact hnames c (by rw [hrun]; exact List.mem_append_left _ hc)

/-! ### Rounds of substitution -/

/-- What replaces the run at the front of some runs, if anything does. -/
def replacement? (find? : String → Option String) (afterHash : Bool) (r : Run) :
    Option String :=
  if r.isReference afterHash then find? (String.ofList r.letters) else none

theorem expandFirst?_cons (afterHash : Bool) (r : Run) (rs : List Run) :
    expandFirst? find? afterHash (r :: rs) =
      match replacement? find? afterHash r with
      | some value => some (value.toList ++ joinRuns rs)
      | none => (expandFirst? find? r.endsInHash rs).map (r.letters ++ ·) := rfl

theorem expands_of_expandFirst? (rs : List Run) (h : Alternate rs) (before : List Char)
    (afterHash : Bool) (hprecedes : Precedes before afterHash rs) (t : List Char)
    (ht : expandFirst? find? afterHash rs = some t) :
    Expands find? (before ++ joinRuns rs) (before ++ t) := by
  induction rs generalizing before afterHash t with
  | nil => cases ht
  | cons r rs ih =>
    have hjoin : joinRuns (r :: rs) = r.letters ++ joinRuns rs := List.flatMap_cons
    rw [expandFirst?_cons] at ht
    cases hfirst : replacement? find? afterHash r with
    | some value =>
      rw [hfirst] at ht
      cases ht
      obtain ⟨href, hvalue⟩ := Option.ite_none_right_eq_some.1 hfirst
      rw [hjoin]
      exact .replace _ _ _ _ (isReference_front hprecedes h href) hvalue
    | none =>
      rw [hfirst] at ht
      obtain ⟨t', ht', rfl⟩ := Option.map_eq_some_iff.1 ht
      have hnext : Precedes (before ++ r.letters) r.endsInHash rs := .next h
      obtain _ | ⟨_, _, _, _, _, hrest⟩ := h
      rw [hjoin, ← List.append_assoc, ← List.append_assoc]
      exact ih hrest _ _ hnext t' ht'

theorem find?_of_expandFirst?_none (rs : List Run) (h : Alternate rs) (before : List Char)
    (afterHash : Bool) (hprecedes : Precedes before afterHash rs)
    (hnone : expandFirst? find? afterHash rs = none) (gap word after : List Char)
    (heq : joinRuns rs = gap ++ (word ++ after)) (href : IsReference (before ++ gap) word after) :
    find? (String.ofList word) = none := by
  induction rs generalizing before afterHash gap with
  | nil =>
    have hempty := (List.append_eq_nil_iff.1 heq.symm).2
    exact absurd (List.append_eq_nil_iff.1 hempty).1 href.longest.nonempty
  | cons r rs ih =>
    have hjoin : joinRuns (r :: rs) = r.letters ++ joinRuns rs := List.flatMap_cons
    rw [hjoin] at heq
    rw [expandFirst?_cons] at hnone
    cases hfirst : replacement? find? afterHash r with
    | some value =>
      rw [hfirst] at hnone
      cases hnone
    | none =>
      rw [hfirst] at hnone
      rcases front_or_behind h href heq with ⟨rfl, hword, rfl⟩ | ⟨more, rfl, hmore⟩
      · rw [List.append_nil] at href
        have hcounts := isReference_of_front hprecedes.hash hword href
        rw [replacement?, if_pos hcounts] at hfirst
        exact hfirst
      · have hnext : Precedes (before ++ r.letters) r.endsInHash rs := .next h
        obtain _ | ⟨_, _, _, _, _, hrest⟩ := h
        rw [← List.append_assoc] at href
        exact ih hrest _ _ hnext (Option.map_eq_none_iff.1 hnone) more hmore href

theorem precedes_nil (rs : List Run) : Precedes [] false rs :=
  ⟨rfl, fun _ _ _ c hc => by cases hc⟩

theorem expands_of_expandOnce? (vars : Bindings) (s t : List Char)
    (h : expandOnce? vars s = some t) : Expands vars.find? s t := by
  have hstep := expands_of_expandFirst? (runs s) (alternate_runs s) [] false (precedes_nil _) t h
  rw [joinRuns_runs] at hstep
  exact hstep

theorem isExpanded_of_expandOnce? (vars : Bindings) (s : List Char)
    (h : expandOnce? vars s = none) : IsExpanded vars.find? s := by
  intro t ht
  obtain ⟨before, word, after, value, href, hvalue⟩ := ht
  have hnone := find?_of_expandFirst?_none _ (alternate_runs _) [] false (precedes_nil _) h
    before word after (joinRuns_runs _) href
  rw [hvalue] at hnone
  cases hnone

theorem expandsTo_of_expandRounds (vars : Bindings) (limit : Nat) (s t : List Char)
    (h : expandRounds vars limit s = (t, true)) :
    ExpandsTo vars.find? s t ∧ IsExpanded vars.find? t := by
  induction limit generalizing s with
  | zero => cases h
  | succ limit ih =>
    rw [expandRounds] at h
    cases hround : expandOnce? vars s with
    | none =>
      rw [hround] at h
      cases h
      exact ⟨.refl, isExpanded_of_expandOnce? vars _ hround⟩
    | some next =>
      rw [hround] at h
      obtain ⟨hrest, hend⟩ := ih next h
      exact ⟨.head (expands_of_expandOnce? vars s next hround) hrest, hend⟩

/-! ### Substitution -/

/-- No variable is visible where none is counted. -/
def Bindings.Counted (vars : Bindings) : Prop :=
  vars.count = 0 → ∀ name, vars.find? name = none

theorem find?_of_size_zero (table : Variables) (h : table.size = 0) (name : String) :
    table.find? name = none := by
  have hnil : table.entries = [] := List.eq_nil_of_length_eq_zero h
  rw [Dict.find?, hnil]
  rfl

theorem Bindings.counted_ofTable (table : Variables) : (ofTable table).Counted :=
  find?_of_size_zero table

theorem Bindings.counted_layered (outer inner : Variables) : (layered outer inner).Counted := by
  intro h name
  have hboth : outer.size + inner.size = 0 := h
  simp only [layered, find?_of_size_zero inner (by omega) name,
    find?_of_size_zero outer (by omega) name, Option.or_none]

/-- The part of the library that warns when substitution stops at its limit of rounds. -/
def substitutionSource : String := "tss::parser::variables"

/-- No substitution stopped at its limit of rounds, as far as some records tell. -/
def NoLimitMet (records : List Record) : Prop := ∀ r ∈ records, r.source ≠ substitutionSource

instance : DecidablePred NoLimitMet := fun records =>
  inferInstanceAs (Decidable (∀ r ∈ records, r.source ≠ substitutionSource))

theorem noLimitMet_append (records more : List Record) :
    NoLimitMet (records ++ more) ↔ NoLimitMet records ∧ NoLimitMet more :=
  List.forall_mem_append

theorem substitute_of_end {vars : Bindings} {value : String} {t : List Char}
    (hcount : vars.count ≠ 0)
    (h : expandRounds vars (roundLimit vars value.toList) value.toList = (t, true)) :
    substitute vars value = pure (String.ofList t) := by
  simp only [substitute, if_neg hcount, h, if_true]

theorem substitute_of_stop {vars : Bindings} {value : String} {t : List Char}
    (hcount : vars.count ≠ 0)
    (h : expandRounds vars (roundLimit vars value.toList) value.toList = (t, false)) :
    (substitute vars value).value = String.ofList t ∧
      ¬ NoLimitMet (substitute vars value).records := by
  simp only [substitute, if_neg hcount, h, Bool.false_eq_true, if_false]
  exact ⟨rfl, fun hquiet => hquiet _ List.mem_cons_self rfl⟩

theorem roundLimit_pos (vars : Bindings) (s : List Char) : 0 < roundLimit vars s :=
  Nat.mul_pos (Nat.succ_pos _) (Nat.succ_pos _)

/-- Substitution that gives no warning ends in a text without references. -/
theorem expandsTo_substitute (vars : Bindings) (hcounted : vars.Counted) (value : String)
    (hquiet : NoLimitMet (substitute vars value).records) :
    ExpandsTo vars.find? value.toList (substitute vars value).value.toList ∧
      IsExpanded vars.find? (substitute vars value).value.toList := by
  by_cases hzero : vars.count = 0
  · have hsame : substitute vars value = pure value := if_pos hzero
    rw [hsame]
    exact ⟨.refl, isExpanded_of_none (hcounted hzero) _⟩
  · rcases hrounds : expandRounds vars (roundLimit vars value.toList) value.toList with ⟨t, ended⟩
    cases ended with
    | true =>
      rw [substitute_of_end hzero hrounds, Logged.value_pure, String.toList_ofList]
      exact expandsTo_of_expandRounds vars _ _ _ hrounds
    | false => exact absurd hquiet (substitute_of_stop hzero hrounds).2

/-- A text without references to variables is its own expansion. -/
theorem substitute_of_isExpanded (vars : Bindings) (text : String)
    (h : IsExpanded vars.find? text.toList) : substitute vars text = pure text := by
  by_cases hzero : vars.count = 0
  · exact if_pos hzero
  · have hround : expandOnce? vars text.toList = none := by
      cases hnext : expandOnce? vars text.toList with
      | none => rfl
      | some next => exact absurd (expands_of_expandOnce? vars _ next hnext) (h next)
    obtain ⟨limit, hlimit⟩ := Nat.exists_eq_add_one.mpr (roundLimit_pos vars text.toList)
    have hrounds : expandRounds vars (roundLimit vars text.toList) text.toList =
        (text.toList, true) := by
      rw [hlimit, expandRounds, hround]
    rw [substitute_of_end hzero hrounds, String.ofList_toList]

/-- Some of the variables: whatever is found among them is found among all. -/
def Bindings.Within (some all : Bindings) : Prop :=
  ∀ name value, some.find? name = .some value → all.find? name = .some value

/-- To substitute some of the variables first and then all of them comes to the same, whichever
are substituted first. -/
theorem substitute_substitute (first first' all : Bindings) (value : String)
    (hcounted : first.Counted) (hcounted' : first'.Counted) (hall : all.Counted)
    (hwithin : first.Within all) (hwithin' : first'.Within all)
    (hquiet : NoLimitMet (substitute first value).records)
    (hquiet' : NoLimitMet (substitute first' value).records)
    (hagain : NoLimitMet (substitute all (substitute first value).value).records)
    (hagain' : NoLimitMet (substitute all (substitute first' value).value).records) :
    (substitute all (substitute first value).value).value =
      (substitute all (substitute first' value).value).value := by
  have hfirst := (expandsTo_substitute first hcounted value hquiet).1.mono hwithin
  have hfirst' := (expandsTo_substitute first' hcounted' value hquiet').1.mono hwithin'
  obtain ⟨hsecond, hend⟩ := expandsTo_substitute all hall _ hagain
  obtain ⟨hsecond', hend'⟩ := expandsTo_substitute all hall _ hagain'
  exact String.toList_inj.1
    (ExpandsTo.unique (hfirst.trans hsecond) (hfirst'.trans hsecond') hend hend')

end FrameUI.Style
