import FrameUI.Proofs.Style.Unfolding
import FrameUI.Proofs.Tables
import Mathlib.Algebra.Order.BigOperators.Group.List
import Mathlib.Data.Set.Card

/-!
# Variables without cycles

A variable refers to another when its value has a reference that names it. Without cycles every
text has a full expansion: what a variable refers to has a smaller rank, and the work within a
value is bounded by its rank. The rounds of substitution are the single replacements on the way, so
substitution comes to the end exactly if there are fewer of them than rounds. Main statement:
`substitute_of_acyclic`, with a bound for tables in which each value names one variable at most.
-/

namespace FrameUI.Style

variable {find? : String → Option String} {table : Variables} {name other : String}
  {text result : List Char}

/-! ### The references of a text -/

/-- The words of the references among some runs. -/
def referencesAmong (afterHash : Bool) : List Run → List String
  | [] => []
  | r :: rs =>
    if r.isReference afterHash then
      String.ofList r.letters :: referencesAmong r.endsInHash rs
    else referencesAmong r.endsInHash rs

def references (text : List Char) : List String := referencesAmong false (runs text)

theorem length_referencesAmong (rs : List Run) (afterHash : Bool) :
    (referencesAmong afterHash rs).length = countReferences afterHash rs := by
  induction rs generalizing afterHash with
  | nil => rfl
  | cons r rs ih =>
    rw [referencesAmong, countReferences, ← ih]
    split
    · rw [List.length_cons, Nat.add_comm]
    · rw [Nat.zero_add]

theorem mem_referencesAmong_cons {afterHash : Bool} {r : Run} {rs : List Run} :
    name ∈ referencesAmong afterHash (r :: rs) ↔
      (r.isReference afterHash = true ∧ name = String.ofList r.letters) ∨
        name ∈ referencesAmong r.endsInHash rs := by
  rw [referencesAmong]
  split
  · rename_i hcounts
    rw [List.mem_cons, and_iff_right hcounts]
  · rename_i hcounts
    exact ⟨Or.inr, fun hor => hor.resolve_left fun hfront => hcounts hfront.1⟩

theorem Alternate.tail {r : Run} {rs : List Run} (h : Alternate (r :: rs)) : Alternate rs := by
  obtain _ | ⟨_, _, _, _, _, hrest⟩ := h
  exact hrest

theorem mem_referencesAmong_iff (rs : List Run) (h : Alternate rs) (before : List Char)
    (afterHash : Bool) (hprecedes : Precedes before afterHash rs) :
    name ∈ referencesAmong afterHash rs ↔
      ∃ gap word after, joinRuns rs = gap ++ (word ++ after) ∧
        IsReference (before ++ gap) word after ∧ name = String.ofList word := by
  induction rs generalizing before afterHash with
  | nil =>
    refine ⟨nofun, ?_⟩
    rintro ⟨gap, word, after, heq, href, _⟩
    have hempty := (List.append_eq_nil_iff.mp heq.symm).2
    exact absurd (List.append_eq_nil_iff.mp hempty).1 href.longest.nonempty
  | cons r rs ih =>
    have hjoin : joinRuns (r :: rs) = r.letters ++ joinRuns rs := List.flatMap_cons
    have hnext : Precedes (before ++ r.letters) r.endsInHash rs := .next h
    rw [mem_referencesAmong_cons, ih h.tail _ _ hnext, hjoin]
    constructor
    · rintro (⟨hcounts, rfl⟩ | ⟨gap, word, after, heq, href, rfl⟩)
      · have href := isReference_front hprecedes h hcounts
        exact ⟨[], r.letters, joinRuns rs, rfl, by simpa using href, rfl⟩
      · refine ⟨r.letters ++ gap, word, after, by rw [heq, List.append_assoc], ?_, rfl⟩
        rw [← List.append_assoc]
        exact href
    · rintro ⟨gap, word, after, heq, href, rfl⟩
      rcases front_or_behind h href heq with ⟨rfl, hword, rfl⟩ | ⟨more, rfl, hmore⟩
      · rw [List.append_nil] at href
        exact Or.inl ⟨isReference_of_front hprecedes.hash hword href, rfl⟩
      · rw [← List.append_assoc] at href
        exact Or.inr ⟨more, word, after, hmore, href, rfl⟩

theorem mem_references_iff :
    name ∈ references text ↔ ∃ before word after, text = before ++ (word ++ after) ∧
      IsReference before word after ∧ name = String.ofList word := by
  have h : name ∈ references text ↔ _ :=
    mem_referencesAmong_iff (runs text) (alternate_runs text) [] false (precedes_nil _)
  rw [joinRuns_runs] at h
  exact h

/-- How many references of a text name variables. -/
def namings (find? : String → Option String) (text : List Char) : Nat :=
  (references text).countP fun word => (find? word).isSome

theorem countP_referencesAmong_cons (afterHash : Bool) (r : Run) (rs : List Run) :
    (referencesAmong afterHash (r :: rs)).countP (fun word => (find? word).isSome) =
      (referencesAmong r.endsInHash rs).countP (fun word => (find? word).isSome) +
        if (replacement? find? afterHash r).isSome then 1 else 0 := by
  rw [referencesAmong, replacement?]
  split
  · rw [List.countP_cons]
  · rfl

/-! ### Unfolding run by run -/

theorem unfolds_kept_run {before : List Char} {afterHash : Bool} {r : Run} {rs : List Run}
    (h : Alternate (r :: rs)) (hprecedes : Precedes before afterHash (r :: rs))
    (hnone : replacement? find? afterHash r = none) :
    Unfolds find? before r.letters r.letters 0 := by
  have halone : Alternate [r] := by
    obtain _ | ⟨_, _, hne, hletters, _, _⟩ := h
    exact .cons r [] hne hletters nofun .nil
  apply unfolds_self
  intro gap word after heq href
  rcases front_or_behind halone href (by simpa [joinRuns] using heq) with
    ⟨rfl, hword, rfl⟩ | ⟨more, _, hmore⟩
  · rw [List.append_nil] at href
    rw [replacement?, if_pos (isReference_of_front hprecedes.hash hword href)] at hnone
    exact hnone
  · have hempty := (List.append_eq_nil_iff.mp hmore.symm).2
    exact absurd (List.append_eq_nil_iff.mp hempty).1 href.longest.nonempty

theorem Alternate.apart {r : Run} {rs : List Run} (h : Alternate (r :: rs)) :
    Apart r.letters (joinRuns rs) := by
  intro c hc hname
  apply h.stopsAt
  obtain _ | ⟨_, _, _, hletters, _, _⟩ := h
  rw [← hletters c (List.mem_of_getLast? hc), hname]

/-- If all variables that a text names have full expansions of some size, so has the text. -/
theorem exists_unfolds_joinRuns (rs : List Run) (h : Alternate rs) (before : List Char)
    (afterHash : Bool) (hprecedes : Precedes before afterHash rs) (cost : Nat)
    (hwords : ∀ word ∈ referencesAmong afterHash rs, ∀ value, find? word = some value →
      ∃ inner m, Unfolds find? [] value.toList inner m ∧ m ≤ cost) :
    ∃ result n, Unfolds find? before (joinRuns rs) result n ∧
      n ≤ (referencesAmong afterHash rs).countP (fun word => (find? word).isSome) * (cost + 1) := by
  induction rs generalizing before afterHash with
  | nil => exact ⟨[], 0, .nil before, Nat.zero_le _⟩
  | cons r rs ih =>
    have hjoin : joinRuns (r :: rs) = r.letters ++ joinRuns rs := List.flatMap_cons
    have hnext : Precedes (before ++ r.letters) r.endsInHash rs := .next h
    obtain ⟨rest, n, hunfolds, hn⟩ := ih h.tail _ _ hnext fun word hword =>
      hwords word (mem_referencesAmong_cons.mpr (Or.inr hword))
    rw [hjoin, countP_referencesAmong_cons]
    cases hfirst : replacement? find? afterHash r with
    | some value =>
      obtain ⟨hcounts, hvalue⟩ := Option.ite_none_right_eq_some.mp hfirst
      obtain ⟨inner, m, hinner, hm⟩ :=
        hwords _ (mem_referencesAmong_cons.mpr (Or.inl ⟨hcounts, rfl⟩)) value hvalue
      refine ⟨inner ++ rest, m + n + 1, .replace before r.letters _ value inner rest m n
        (isReference_front hprecedes h hcounts) hvalue hinner hunfolds, ?_⟩
      rw [Option.isSome_some, if_pos rfl, Nat.add_mul]
      omega
    | none =>
      have hkept := unfolds_kept_run h hprecedes hfirst
      exact ⟨r.letters ++ rest, 0 + n, hkept.append hunfolds h.apart, by simpa using hn⟩

theorem exists_unfolds (text : List Char) (cost : Nat)
    (hwords : ∀ word ∈ references text, ∀ value, find? word = some value →
      ∃ inner m, Unfolds find? [] value.toList inner m ∧ m ≤ cost) :
    ∃ result n, Unfolds find? [] text result n ∧ n ≤ namings find? text * (cost + 1) := by
  have h := exists_unfolds_joinRuns (runs text) (alternate_runs text) [] false (precedes_nil _)
    cost hwords
  rw [joinRuns_runs] at h
  exact h

/-! ### What a variable refers to -/

/-- A variable refers to another: its value has a reference that names it. -/
def Refers (table : Variables) (name other : String) : Prop :=
  ∃ value, table.find? name = some value ∧ (table.find? other).isSome = true ∧
    ∃ before word after, value.toList = before ++ (word ++ after) ∧
      IsReference before word after ∧ other = String.ofList word

def Acyclic (table : Variables) : Prop := ∀ name, ¬ Relation.TransGen (Refers table) name name

theorem refers_iff : Refers table name other ↔ ∃ value, table.find? name = some value ∧
    (table.find? other).isSome = true ∧ other ∈ references value.toList := by
  simp only [Refers, mem_references_iff]

/-- A table is without cycles if its variables can be ranked along their references. -/
theorem acyclic_of_rank (rank : String → Nat)
    (h : ∀ entry ∈ table.entries, ∀ other ∈ references entry.2.toList,
      (table.find? other).isSome = true → rank other < rank entry.1) : Acyclic table := by
  have hstep : ∀ name other, Refers table name other → rank other < rank name := by
    intro name other hrefers
    obtain ⟨value, hfind, hnamed, hmem⟩ := refers_iff.mp hrefers
    exact h (name, value) (Dict.mem_of_lookup _ _ _ hfind) other hmem hnamed
  have hpath : ∀ name other, Relation.TransGen (Refers table) name other →
      rank other < rank name := by
    intro name other hpath
    induction hpath with
    | single hrefers => exact hstep _ _ hrefers
    | tail _ hrefers ih => exact Nat.lt_trans (hstep _ _ hrefers) ih
  exact fun name hcycle => Nat.lt_irrefl _ (hpath name name hcycle)

/-- All that a variable refers to, at once or by way of others. -/
def reached (table : Variables) (name : String) : Set String :=
  {other | Relation.TransGen (Refers table) name other}

def named (table : Variables) : Set String := {name | (table.find? name).isSome = true}

theorem named_eq (table : Variables) : named table = (table.keys.toFinset : Set String) := by
  ext name
  rw [List.coe_toFinset]
  exact Dict.lookup_isSome_iff name table.entries

theorem finite_named (table : Variables) : (named table).Finite := by
  rw [named_eq]
  exact Finset.finite_toSet _

theorem ncard_named_le (table : Variables) : (named table).ncard ≤ table.size := by
  rw [named_eq, Set.ncard_coe_finset]
  have hlength : table.keys.length = table.size := List.length_map _
  rw [← hlength]
  exact List.toFinset_card_le _

theorem reached_subset (table : Variables) (name : String) : reached table name ⊆ named table := by
  intro other h
  cases h with
  | single hstep => exact hstep.choose_spec.2.1
  | tail _ hstep => exact hstep.choose_spec.2.1

/-- How many variables a variable refers to, at once or by way of others. -/
noncomputable def rank (table : Variables) (name : String) : Nat := (reached table name).ncard

theorem Acyclic.rank_lt_of_refers (h : Acyclic table) (hrefers : Refers table name other) :
    rank table other < rank table name := by
  have hsubset : reached table other ⊆ reached table name :=
    fun _ hpath => Relation.TransGen.head hrefers hpath
  have hstrict : reached table other ⊂ reached table name :=
    (Set.ssubset_iff_of_subset hsubset).mpr ⟨other, .single hrefers, h other⟩
  exact Set.ncard_lt_ncard hstrict ((finite_named table).subset (reached_subset table name))

theorem Acyclic.rank_lt_size (h : Acyclic table) (hname : (table.find? name).isSome = true) :
    rank table name < table.size := by
  have hstrict : reached table name ⊂ named table :=
    (Set.ssubset_iff_of_subset (reached_subset table name)).mpr ⟨name, hname, h name⟩
  exact (Set.ncard_lt_ncard hstrict (finite_named table)).trans_le (ncard_named_le table)

/-! ### How far the values unfold -/

/-- The replacements within a value of some depth, if every value names `width` variables. -/
def nestedCount (width : Nat) : Nat → Nat
  | 0 => 0
  | depth + 1 => width * (nestedCount width depth + 1)

theorem nestedCount_one (depth : Nat) : nestedCount 1 depth = depth := by
  induction depth with
  | zero => rfl
  | succ depth ih => rw [nestedCount, ih, Nat.one_mul]

/-- No value names more than so many variables. -/
def WidthAtMost (table : Variables) (width : Nat) : Prop :=
  ∀ entry ∈ table.entries, namings table.find? entry.2.toList ≤ width

instance (table : Variables) (width : Nat) : Decidable (WidthAtMost table width) :=
  inferInstanceAs (Decidable (∀ entry ∈ table.entries, namings table.find? entry.2.toList ≤ width))

theorem exists_widthAtMost (table : Variables) : ∃ width, WidthAtMost table width :=
  ⟨(table.entries.map fun entry => namings table.find? entry.2.toList).sum,
    fun _ hmem => List.le_sum_of_mem (List.mem_map_of_mem hmem)⟩

/-- Without cycles every value has a full expansion, by induction on a bound of its rank. -/
theorem Acyclic.exists_unfolds_value (h : Acyclic table) {width : Nat}
    (hwidth : WidthAtMost table width) (depth : Nat) (value : String)
    (hfind : table.find? name = some value) (hrank : rank table name < depth) :
    ∃ inner m, Unfolds table.find? [] value.toList inner m ∧ m ≤ nestedCount width depth := by
  induction depth generalizing name value with
  | zero => cases hrank
  | succ depth ih =>
    -- what the value names has a smaller rank, so it is within the bound of the induction
    have hwords : ∀ word ∈ references value.toList, ∀ text, table.find? word = some text →
        ∃ inner m, Unfolds table.find? [] text.toList inner m ∧ m ≤ nestedCount width depth := by
      intro word hword text htext
      have hrefers : Refers table name word :=
        refers_iff.mpr ⟨value, hfind, by rw [htext]; rfl, hword⟩
      have hlower := h.rank_lt_of_refers hrefers
      exact ih text htext (by omega)
    obtain ⟨inner, m, hunfolds, hm⟩ := exists_unfolds value.toList _ hwords
    have hnamings := hwidth (name, value) (Dict.mem_of_lookup _ _ _ hfind)
    exact ⟨inner, m, hunfolds, hm.trans (Nat.mul_le_mul_right _ hnamings)⟩

theorem Acyclic.exists_unfolds (h : Acyclic table) {width : Nat} (hwidth : WidthAtMost table width)
    (text : List Char) :
    ∃ result n, Unfolds table.find? [] text result n ∧
      n ≤ namings table.find? text * (nestedCount width table.size + 1) := by
  apply Style.exists_unfolds
  intro word _ value hfind
  exact h.exists_unfolds_value hwidth table.size value hfind (h.rank_lt_size (by rw [hfind]; rfl))

/-- Where each value names one variable at most, the limit of rounds is out of reach. -/
theorem lt_roundLimit (table : Variables) (text : List Char) {n : Nat}
    (h : n ≤ namings table.find? text * (nestedCount 1 table.size + 1)) :
    n < roundLimit (.ofTable table) text := by
  have hnamings : namings table.find? text ≤ countReferences false (runs text) := by
    rw [← length_referencesAmong]
    exact List.countP_le_length
  rw [nestedCount_one] at h
  calc n ≤ namings table.find? text * (table.size + 1) := h
    _ ≤ countReferences false (runs text) * (table.size + 1) := Nat.mul_le_mul_right _ hnamings
    _ < (countReferences false (runs text) + 1) * (table.size + 1) :=
      Nat.mul_lt_mul_of_pos_right (Nat.lt_succ_self _) (Nat.succ_pos _)
    _ = roundLimit (.ofTable table) text := Nat.mul_comm _ _

/-! ### Substitution -/

/-- Substitution comes to the full expansion if the replacements are fewer than the rounds;
otherwise it stops there with a warning, as many replacements nearer as there were rounds. -/
theorem Unfolds.substitute {vars : Bindings} (hcounted : vars.Counted) {value : String} {n : Nat}
    (h : Unfolds vars.find? [] value.toList result n) :
    (n < roundLimit vars value.toList →
        Style.substitute vars value = pure (String.ofList result)) ∧
      (roundLimit vars value.toList ≤ n →
        ¬ NoLimitMet (Style.substitute vars value).records ∧
        Unfolds vars.find? [] (Style.substitute vars value).value.toList result
          (n - roundLimit vars value.toList)) := by
  by_cases hzero : vars.count = 0
  · have hnone := unfolds_of_isExpanded (isExpanded_of_none (hcounted hzero) value.toList)
    obtain ⟨rfl, rfl⟩ := h.unique hnone
    have hsame : Style.substitute vars value = pure value := if_pos hzero
    have hpos := roundLimit_pos vars value.toList
    exact ⟨fun _ => by rw [hsame, String.ofList_toList], fun hle => by omega⟩
  · constructor
    · intro hlt
      exact substitute_of_end hzero (h.expandRounds_of_lt hlt)
    · intro hle
      obtain ⟨t, hrounds, ht⟩ := h.expandRounds (roundLimit vars value.toList)
      rw [decide_eq_false (Nat.not_lt.mpr hle)] at hrounds
      obtain ⟨hvalue, hwarned⟩ := substitute_of_stop hzero hrounds
      rw [hvalue, String.toList_ofList]
      exact ⟨hwarned, ht⟩

/-- For variables without cycles, the full expansion takes a certain number of replacements.
Substitution comes to it if there are rounds enough, as there are where each value names one
variable at most; otherwise it stops on the way, with a warning. -/
theorem substitute_of_acyclic (table : Variables) (hacyclic : Acyclic table) (value : String) :
    ∃ result n, Unfolds table.find? [] value.toList result n ∧
      (∀ before word after, result = before ++ (word ++ after) → IsReference before word after →
        table.find? (String.ofList word) = none) ∧
      (n < roundLimit (.ofTable table) value.toList →
        substitute (.ofTable table) value = pure (String.ofList result)) ∧
      (WidthAtMost table 1 → n < roundLimit (.ofTable table) value.toList) ∧
      (roundLimit (.ofTable table) value.toList ≤ n →
        ¬ NoLimitMet (substitute (.ofTable table) value).records ∧
        Unfolds table.find? [] (substitute (.ofTable table) value).value.toList result
          (n - roundLimit (.ofTable table) value.toList)) := by
  have hunfolds : ∃ result n, Unfolds table.find? [] value.toList result n ∧
      (WidthAtMost table 1 → n < roundLimit (.ofTable table) value.toList) := by
    -- any width gives an expansion, and only the bound of width one stays below the limit
    by_cases hnarrow : WidthAtMost table 1
    · obtain ⟨result, n, hunfolds, hn⟩ := hacyclic.exists_unfolds hnarrow value.toList
      exact ⟨result, n, hunfolds, fun _ => lt_roundLimit table value.toList hn⟩
    · obtain ⟨width, hwidth⟩ := exists_widthAtMost table
      obtain ⟨result, n, hunfolds, _⟩ := hacyclic.exists_unfolds hwidth value.toList
      exact ⟨result, n, hunfolds, fun h => absurd h hnarrow⟩
  obtain ⟨result, n, hunfolds, hnarrow⟩ := hunfolds
  have hend := (exists_unfolds_iff.mp ⟨n, hunfolds⟩).2
  obtain ⟨hbelow, hbeyond⟩ := hunfolds.substitute (Bindings.counted_ofTable table)
  exact ⟨result, n, hunfolds, fun before word after heq href => hend.find?_eq_none heq href,
    hbelow, hnarrow, hbeyond⟩

/-- Variables without cycles, each of which names one other at most. -/
def chained : Variables :=
  .ofList [("accent", "brand"), ("brand", "0x112233FF"), ("edge", "rgb(1, accent)"), ("gap", "")]

theorem substitute_of_acyclic_chained :
    Acyclic chained ∧ ∃ n, Unfolds chained.find? [] "edge(gap) edge".toList
      "rgb(1, 0x112233FF)() rgb(1, 0x112233FF)".toList n ∧
      n < roundLimit (.ofTable chained) "edge(gap) edge".toList := by
  have hacyclic : Acyclic chained := by
    apply acyclic_of_rank fun name => if name = "edge" then 2 else if name = "accent" then 1 else 0
    decide +kernel
  obtain ⟨result, n, hunfolds, _, hbelow, hnarrow, _⟩ :=
    substitute_of_acyclic chained hacyclic "edge(gap) edge"
  have hlt := hnarrow (by decide +kernel)
  have hresult : (substitute (.ofTable chained) "edge(gap) edge").value =
      "rgb(1, 0x112233FF)() rgb(1, 0x112233FF)" := by
    decide +kernel
  rw [hbelow hlt, Logged.value_pure] at hresult
  have hfull : result = "rgb(1, 0x112233FF)() rgb(1, 0x112233FF)".toList := by
    rw [← hresult, String.toList_ofList]
  rw [hfull] at hunfolds
  exact ⟨hacyclic, n, hunfolds, hlt⟩

/-- Two variables, one of which names the other six times. -/
def sixfold : Variables := .ofList [("a", "1"), ("b", "a a a a a a")]

/-- The limit does not reach for all variables without cycles. -/
theorem substitute_sixfold_meets_limit :
    Acyclic sixfold ∧ ¬ NoLimitMet (substitute (.ofTable sixfold) "b").records ∧
      (substitute (.ofTable sixfold) "b").value = "1 1 1 1 1 a" ∧
      ∃ before word after, "1 1 1 1 1 a".toList = before ++ (word ++ after) ∧
        IsReference before word after ∧ sixfold.find? (String.ofList word) = some "1" := by
  refine ⟨?_, by decide +kernel, by decide +kernel, ?_⟩
  · apply acyclic_of_rank fun name => if name = "b" then 1 else 0
    decide +kernel
  · have hmem : "a" ∈ references "1 1 1 1 1 a".toList := by decide +kernel
    obtain ⟨before, word, after, heq, href, hword⟩ := mem_references_iff.mp hmem
    exact ⟨before, word, after, heq, href, by rw [← hword]; decide +kernel⟩

end FrameUI.Style
