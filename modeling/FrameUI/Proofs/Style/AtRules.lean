import FrameUI.Proofs.Style.Items
import Mathlib.Data.List.Infix

/-!
# Skipping at-rules

An at-rule with a block is skipped by its braces, wherever they stand, while the reader of the
sheet proper knows comments and quotes. The two views of a block agree as long as every brace in
it stands for the opening or closing of a rule or a scope, or belongs to a balanced at-rule.
Main statement: an at-rule around such a sheet changes nothing (`parse_atRule`). A quoted brace
is enough to tell the views apart.
-/

namespace FrameUI.Style

/-! ### Braces -/

def isBrace (c : Char) : Bool := c == '{' || c == '}'

def braces (s : List Char) : List Char := s.filter isBrace

/-- How many braces are open after a text before which some were open, unless it closes more. -/
def nest (depth : Nat) : List Char → Option Nat
  | [] => some depth
  | c :: r =>
    if c = '{' then nest (depth + 1) r
    else if c = '}' then if depth = 0 then none else nest (depth - 1) r
    else nest depth r

theorem nest_append (depth : Nat) (s t : List Char) :
    nest depth (s ++ t) = (nest depth s).bind fun d => nest d t := by
  fun_induction nest depth s with
  | case1 => rfl
  | case2 depth r ih =>
    rw [List.cons_append, nest, if_pos rfl]
    exact ih
  | case3 r => simp [nest]
  | case4 depth r hdepth _ ih =>
    rw [List.cons_append, nest, if_neg hdepth]
    exact ih
  | case5 depth c r hopen hclose ih =>
    rw [List.cons_append, nest, if_neg hopen, if_neg hclose]
    exact ih

/-- Only the braces of a text count for its nesting. -/
theorem nest_braces (depth : Nat) (s : List Char) : nest depth (braces s) = nest depth s := by
  fun_induction nest depth s with
  | case1 => rfl
  | case2 depth r ih => exact ih
  | case3 r => rfl
  | case4 depth r hdepth _ ih =>
    rw [braces, List.filter_cons_of_pos (by decide), nest, if_neg hdepth]
    exact ih
  | case5 depth c r hopen hclose ih =>
    rw [braces, List.filter_cons_of_neg (by simp [isBrace, hopen, hclose])]
    exact ih

/-- A block is skipped over a text that nests properly. -/
theorem afterBlock_append (depth d : Nat) (s t : List Char) (h : nest depth s = some d) :
    afterBlock (depth + 1) (s ++ t) = afterBlock (d + 1) t := by
  fun_induction nest depth s with
  | case1 =>
    cases h
    rfl
  | case2 depth r ih =>
    rw [List.cons_append, afterBlock, if_pos rfl]
    exact ih h
  | case3 r => cases h
  | case4 depth r hdepth _ ih =>
    rw [List.cons_append, afterBlock, Nat.add_sub_cancel, if_neg hdepth]
    rw [Nat.sub_add_cancel (Nat.pos_of_ne_zero hdepth)] at ih
    exact ih h
  | case5 depth c r hopen hclose ih =>
    rw [List.cons_append, afterBlock, if_neg hopen, if_neg hclose]
    exact ih h

/-! ### Braces of a sheet -/

/-- The brace that a mark stands for. -/
def Mark.brace? : Mark → Option Char
  | .ruleOpened _ _ | .scopeOpened => some '{'
  | .ruleClosed | .scopeClosed => some '}'
  | .declared _ _ | .defined _ _ => none

/-- How many rules and scopes are open at a place. -/
def Place.depth : Place → Nat
  | .top => 0
  | .scope | .rule false => 1
  | .rule true => 2

/-- Whether a text that is read from a place has a brace that neither opens nor closes a rule or
a scope, and is no brace of an at-rule which has as many of one kind as of the other. -/
def hidesBrace (p : Place) (s : List Char) : Bool :=
  match _ : step p s with
  | .stop _ _ => braces s != []
  | .go [] place rest =>
    nest 0 (s.take (s.length - rest.length)) != some 0 || hidesBrace place rest
  | .go (m :: ms) place rest =>
    braces s != (m :: ms).filterMap Mark.brace? ++ braces rest || hidesBrace place rest
termination_by s.length
decreasing_by all_goals exact step_rest_lt _ _ _ _ _ (by assumption)

/-! ### What at-rules leave -/

theorem afterTrivia_suffix (s : List Char) : afterTrivia s <:+ s := by
  have hboth : (∀ s, afterTrivia s <:+ s) ∧ ∀ s, afterCommentText s <:+ s := by
    refine afterTrivia.mutual_induct (fun s => afterTrivia s <:+ s)
      (fun s => afterCommentText s <:+ s) ?_ ?_ ?_ ?_ ?_ ?_ ?_
    · intro r ih
      rw [afterTrivia]
      exact ih.trans (List.suffix_append ['/', '*'] r)
    · intro c r hne hc ih
      rw [afterTrivia]
      · rw [if_pos hc]
        exact ih.trans (List.suffix_cons c r)
      · exact hne
    · intro c r hne hc
      rw [afterTrivia]
      · rw [if_neg hc]
      · exact hne
    · rw [afterTrivia]
    · intro r ih
      rw [afterCommentText]
      exact ih.trans (List.suffix_append ['*', '/'] r)
    · intro c r hne ih
      rw [afterCommentText]
      · exact ih.trans (List.suffix_cons c r)
      · exact hne
    · rw [afterCommentText]
  exact hboth.1 s

theorem afterBlock_suffix (depth : Nat) (s : List Char) : afterBlock depth s <:+ s := by
  fun_induction afterBlock depth s with
  | case1 => exact List.suffix_refl []
  | case2 depth r ih => exact ih.trans (List.suffix_cons _ r)
  | case3 depth r => exact List.suffix_cons _ r
  | case4 depth r _ _ ih => exact ih.trans (List.suffix_cons _ r)
  | case5 depth c r _ _ ih => exact ih.trans (List.suffix_cons c r)

theorem afterAtRule_suffix (r : List Char) : afterAtRule ('@' :: r) <:+ '@' :: r := by
  have hdrop := List.dropWhile_suffix (l := r) fun c => c != ';' && c != '{'
  simp only [afterAtRule]
  split
  · rename_i rest h
    rw [h] at hdrop
    exact ((List.suffix_cons _ rest).trans hdrop).trans (List.suffix_cons _ r)
  · exact ((afterBlock_suffix _ _).trans hdrop).trans (List.suffix_cons _ r)

theorem suffix_of_skip (p p' : Place) (s rest : List Char) (h : step p s = .go [] p' rest) :
    rest <:+ s := by
  obtain ⟨rfl, rfl⟩ : p = .top ∧ p' = .top := by
    cases hmove : moves_of_step _ _ _ _ _ h
    exact ⟨rfl, rfl⟩
  simp only [step, stepTop] at h
  split at h
  · cases h
  · rename_i c r hs
    split at h
    · cases h
    · split at h
      · rename_i hat
        cases h
        subst hat
        have hall := afterTrivia_suffix s
        rw [hs] at hall
        exact (afterAtRule_suffix r).trans hall
      · obtain ⟨_, _, hms, _⟩ := moves_of_stepHead _ _ _ _ _ h
        cases hms

/-! ### Sheets in blocks -/

/-- The braces of the marks nest as the places they lead from and to. -/
theorem nest_of_moves (p p' : Place) (ms : List Mark) (h : Moves p ms p') :
    nest p.depth (ms.filterMap Mark.brace?) = some p'.depth := by
  cases h with
  | closeRule inScope => cases inScope <;> rfl
  | declare inScope name raw => cases inScope <;> rfl
  | _ => rfl

/-- A text that is read to its end and hides no brace closes all that is open. -/
theorem nest_of_readFrom (p : Place) (s : List Char) (hread : (readFrom p s).failure = none)
    (hplain : hidesBrace p s = false) : nest p.depth s = some 0 := by
  rw [hidesBrace] at hplain
  split at hplain
  · rename_i ms failure hstep
    rw [readFrom_of_stop p s ms failure hstep] at hread
    obtain rfl : failure = none := hread
    obtain ⟨rfl, rfl⟩ := top_of_stop p s ms hstep
    rw [bne_eq_false_iff_eq] at hplain
    rw [← nest_braces, hplain]
    rfl
  -- An at-rule is left out: what is in front of the rest nests by itself.
  · rename_i p' rest hstep
    have hlt := step_rest_lt p p' s rest [] hstep
    have hmove := moves_of_step p p' s rest [] hstep
    rw [readFrom_of_go p p' s rest [] hstep] at hread
    rw [Bool.or_eq_false_iff, bne_eq_false_iff_eq] at hplain
    obtain ⟨hskipped, hrest⟩ := hplain
    cases hmove
    have hdrop := List.suffix_iff_eq_drop.mp (suffix_of_skip _ _ _ _ hstep)
    have hnest := nest_of_readFrom .top rest hread hrest
    rw [hdrop] at hnest
    calc nest 0 s
      _ = nest 0 (s.take (s.length - rest.length) ++ s.drop (s.length - rest.length)) := by
        rw [List.take_append_drop]
      _ = nest 0 (s.drop (s.length - rest.length)) := by
        rw [nest_append, hskipped, Option.bind_some]
      _ = some 0 := hnest
  -- The braces in front of the rest are those of the marks, and lead from place to place.
  · rename_i m ms p' rest hstep
    have hlt := step_rest_lt p p' s rest (m :: ms) hstep
    have hmove := moves_of_step p p' s rest (m :: ms) hstep
    rw [readFrom_of_go p p' s rest (m :: ms) hstep] at hread
    rw [Bool.or_eq_false_iff, bne_eq_false_iff_eq] at hplain
    obtain ⟨hbraces, hrest⟩ := hplain
    rw [← nest_braces, hbraces, nest_append, nest_of_moves p p' _ hmove, Option.bind_some,
      nest_braces]
    exact nest_of_readFrom p' rest hread hrest
termination_by s.length

/-- An at-rule with a block. -/
def atRule (head body : List Char) : List Char := '@' :: (head ++ '{' :: (body ++ ['}']))

/-- An at-rule is skipped as a whole if the text of its block nests properly. -/
theorem step_atRule (head body rest : List Char) (hhead : ';' ∉ head ∧ '{' ∉ head)
    (hbody : nest 0 body = some 0) : step .top (atRule head body ++ rest) = .go [] .top rest := by
  have hassoc : atRule head body ++ rest = '@' :: (head ++ '{' :: (body ++ '}' :: rest)) := by
    simp [atRule]
  have hin : ∀ c ∈ head, (c != ';' && c != '{') = true := by
    intro c hc
    rw [Bool.and_eq_true, bne_iff_ne, bne_iff_ne]
    constructor
    · rintro rfl
      exact hhead.1 hc
    · rintro rfl
      exact hhead.2 hc
  have hblock := Text.dropWhile_append_stop (fun c => c != ';' && c != '{') head
    ('{' :: (body ++ '}' :: rest)) hin (Text.stopsAt_cons _ '{' _ (by decide))
  have hskip : afterAtRule ('@' :: (head ++ '{' :: (body ++ '}' :: rest))) = rest := by
    calc afterAtRule ('@' :: (head ++ '{' :: (body ++ '}' :: rest)))
      _ = afterBlock 0 ('{' :: (body ++ '}' :: rest)) := by
        simp only [afterAtRule, hblock]
        rfl
      _ = afterBlock 1 (body ++ '}' :: rest) := rfl
      _ = afterBlock 1 ('}' :: rest) := afterBlock_append 0 0 body _ hbody
      _ = rest := rfl
  rw [hassoc, step, afterTrivia_of_ne '@' _ (by decide) (by decide)]
  simp only [stepTop, hskip, if_true]
  rfl

/-- An at-rule around an accepted sheet that hides no brace changes nothing behind it. -/
theorem parse_atRule (head body rest : List Char) (sheet : Sheet)
    (hhead : ';' ∉ head ∧ '{' ∉ head)
    (hbody : (parse .lenient (String.ofList body)).outcome = .ok sheet)
    (hplain : hidesBrace .top body = false) :
    (parse .lenient (String.ofList (atRule head body ++ rest))).outcome.toOption =
      (parse .lenient (String.ofList rest)).outcome.toOption := by
  obtain ⟨hread, _⟩ := parse_ok _ _ _ hbody
  rw [String.toList_ofList] at hread
  have hstep := step_atRule head body rest hhead (nest_of_readFrom .top body hread hplain)
  have hsame : read (atRule head body ++ rest) = read rest :=
    readFrom_of_go _ _ _ _ _ hstep
  rw [outcome_parse, outcome_parse, String.toList_ofList, String.toList_ofList, hsame]
  cases Checked.outcome (Draft.empty.takeAll .lenient (read rest).marks) with
  | error e => rfl
  | ok draft =>
    cases (read rest).failure with
    | none => rfl
    | some f => rfl

/-- A sheet with a rule in a scope and an at-rule in front of another rule. -/
def nestedBody : List Char :=
  "scope\x7bink:red; B\x7bcolor:ink;\x7d\x7d @x\x7ba\x7bb;\x7d\x7d A\x7bw:'1';\x7d".toList

theorem parse_atRule_nestedBody :
    hidesBrace .top nestedBody = false ∧
      (parse .lenient (String.ofList
        (atRule "media x".toList nestedBody ++ "W\x7bw:3;\x7d".toList))).outcome.toOption =
        some ⟨∅, [⟨"W", ⟨[⟨[.tag "W"]⟩]⟩, .ofList [("w", "3")]⟩]⟩ := by
  have hhead : ';' ∉ "media x".toList ∧ '{' ∉ "media x".toList := by decide
  have hbody : (parse .lenient (String.ofList nestedBody)).outcome =
      .ok ⟨.ofList [("ink", "red")], [⟨"B", ⟨[⟨[.tag "B"]⟩]⟩, .ofList [("color", "red")]⟩,
        ⟨"A", ⟨[⟨[.tag "A"]⟩]⟩, .ofList [("w", "1")]⟩]⟩ := by decide +kernel
  have hplain : hidesBrace .top nestedBody = false := by decide +kernel
  refine ⟨hplain, ?_⟩
  rw [parse_atRule _ nestedBody _ _ hhead hbody hplain]
  decide +kernel

/-- A quoted brace ends an at-rule early, and what is left of its block spoils the next rule. -/
theorem exists_parse_atRule_ne :
    ∃ head body rest sheet, (';' ∉ head ∧ '{' ∉ head) ∧
      (parse .lenient (String.ofList body)).outcome = .ok sheet ∧
      (parse .lenient (String.ofList rest)).outcome.isOk = true ∧
      (parse .lenient (String.ofList (atRule head body ++ rest))).outcome.isOk = false := by
  refine ⟨"media x".toList, "Text\x7bcontent:\"\x7d\";\x7d".toList,
    "Window\x7bwidth:3;\x7d".toList,
    ⟨∅, [⟨"Text", ⟨[⟨[.tag "Text"]⟩]⟩, .ofList [("content", "\x7d")]⟩]⟩, by decide, ?_, ?_, ?_⟩
  · decide +kernel
  · decide +kernel
  · decide +kernel

end FrameUI.Style
