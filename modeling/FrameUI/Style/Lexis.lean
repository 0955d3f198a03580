import FrameUI.Text.Blank
import FrameUI.Text.Name

/-!
# Lexical pieces of stylesheets

Trivia are spaces, tabs, line ends and comments between `/*` and `*/`; a comment that is
never closed runs to the end. Trivia are skipped between tokens, while inside selectors
each comment is replaced by a space. A value is quoted, or a bare run up to a blank, `;` or
`}`. An at-rule is skipped as a whole, by its braces alone. Main statements: the bounds on
what each piece leaves, which make reading end.
-/

namespace FrameUI.Style

/-! ### Trivia -/

/-- Whether a character is white space between tokens. -/
def isSpace (c : Char) : Bool := c == ' ' || c == '\t' || c == '\r' || c == '\n'

mutual

/-- The text without its leading spaces and comments. -/
def afterTrivia : List Char → List Char
  | '/' :: '*' :: r => afterCommentText r
  | c :: r => if isSpace c then afterTrivia r else c :: r
  | [] => []

/-- Inside a comment: what is left after its end and after any trivia behind it. -/
def afterCommentText : List Char → List Char
  | '*' :: '/' :: r => afterTrivia r
  | _ :: r => afterCommentText r
  | [] => []

end

mutual

/-- The text with every comment replaced by one space. -/
def blankComments : List Char → List Char
  | '/' :: '*' :: r => ' ' :: dropComment r
  | c :: r => c :: blankComments r
  | [] => []

/-- Inside a comment: the rest of the text with its further comments replaced. -/
def dropComment : List Char → List Char
  | '*' :: '/' :: r => blankComments r
  | _ :: r => dropComment r
  | [] => []

end

theorem after_length_le :
    (∀ s, (afterTrivia s).length ≤ s.length) ∧ ∀ s, (afterCommentText s).length ≤ s.length := by
  refine afterTrivia.mutual_induct (fun s => (afterTrivia s).length ≤ s.length)
    (fun s => (afterCommentText s).length ≤ s.length) ?_ ?_ ?_ ?_ ?_ ?_ ?_
  · intro r ih
    simp only [afterTrivia, List.length_cons]
    omega
  · intro c r hne hc ih
    rw [afterTrivia]
    · simp only [hc, if_true, List.length_cons]
      omega
    · exact hne
  · intro c r hne hc
    rw [afterTrivia]
    · simp [hc]
    · exact hne
  · simp [afterTrivia]
  · intro r ih
    simp only [afterCommentText, List.length_cons]
    omega
  · intro c r hne ih
    rw [afterCommentText]
    · simp only [List.length_cons]
      omega
    · exact hne
  · simp [afterCommentText]

theorem afterTrivia_length_le (s : List Char) : (afterTrivia s).length ≤ s.length :=
  after_length_le.1 s

/-! ### Identifiers and values -/

def readIdent? (s : List Char) : Option (List Char × List Char) :=
  if (Text.nameRun s).isEmpty then none else some (Text.nameRun s, Text.afterName s)

def isBare (c : Char) : Bool := !(Text.isBlank c || c == ';' || c == '}')

/-- A value, and what follows it. Quotes are left out of the value; there is none when the
closing quote is missing. -/
def readValue? (s : List Char) : Option (List Char × List Char) :=
  match s with
  | [] => some ([], [])
  | q :: r =>
    if q = '\x22' ∨ q = '\x27' then
      match r.dropWhile (· != q) with
      | _ :: rest => some (r.takeWhile (· != q), rest)
      | [] => none
    else some ((q :: r).takeWhile isBare, (q :: r).dropWhile isBare)

/-- The text before the next opening brace, trimmed, and the text from that brace on. -/
def readSelector (s : List Char) : List Char × List Char :=
  (Text.trim (s.takeWhile (· != '{')), s.dropWhile (· != '{'))

/-- What follows the keyword `scope`, trivia and an opening brace. -/
def openScope? (s : List Char) : Option (List Char) :=
  match Text.dropLead? ['s', 'c', 'o', 'p', 'e'] s with
  | none => none
  | some r => Text.dropLead? ['{'] (afterTrivia r)

/-! ### At-rules -/

/-- What follows the brace that closes the outermost open one, when `depth` are open. -/
def afterBlock (depth : Nat) : List Char → List Char
  | [] => []
  | c :: r =>
    if c = '{' then afterBlock (depth + 1) r
    else if c = '}' then if depth - 1 = 0 then r else afterBlock (depth - 1) r
    else afterBlock depth r

/-- What follows an at-rule: it ends with its first `;`, or with the block that opens before
that. A text that begins with no at-rule is kept. -/
def afterAtRule : List Char → List Char
  | '@' :: r =>
    match r.dropWhile fun c => c != ';' && c != '{' with
    | ';' :: rest => rest
    | block => afterBlock 0 block
  | s => s

/-! ### What the pieces leave -/

theorem readIdent?_rest_lt (s name rest : List Char) (h : readIdent? s = some (name, rest)) :
    rest.length < s.length := by
  unfold readIdent? at h
  split at h
  · cases h
  · rename_i hn
    simp only [Option.some.injEq, Prod.mk.injEq] at h
    rw [← h.2]
    exact Text.afterName_length_lt s (by simpa using hn)

theorem readValue?_rest_le (s value rest : List Char)
    (h : readValue? s = some (value, rest)) : rest.length ≤ s.length := by
  unfold readValue? at h
  split at h
  · simp only [Option.some.injEq, Prod.mk.injEq] at h
    obtain ⟨_, rfl⟩ := h
    exact Nat.le_refl _
  · rename_i q r
    split at h
    · split at h
      · rename_i d rest' hd
        have hle := Text.length_dropWhile_le (· != q) r
        rw [hd] at hle
        simp only [Option.some.injEq, Prod.mk.injEq] at h
        rw [← h.2]
        simp only [List.length_cons] at hle ⊢
        omega
      · cases h
    · simp only [Option.some.injEq, Prod.mk.injEq] at h
      rw [← h.2]
      exact Text.length_dropWhile_le _ _

theorem openScope?_rest_lt (s rest : List Char) (h : openScope? s = some rest) :
    rest.length < s.length := by
  unfold openScope? at h
  split at h
  · cases h
  · rename_i r hr
    have h1 := congrArg List.length ((Text.dropLead?_eq_some _ _ _).mp hr)
    have h2 := congrArg List.length ((Text.dropLead?_eq_some _ _ _).mp h)
    have h3 := afterTrivia_length_le r
    simp only [List.length_append, List.length_cons, List.length_nil] at h1 h2
    omega

theorem afterBlock_length_le (depth : Nat) (s : List Char) :
    (afterBlock depth s).length ≤ s.length := by
  fun_induction afterBlock depth s with
  | case1 => simp
  | case2 depth r ih =>
    simp only [List.length_cons]
    omega
  | case3 depth r =>
    simp only [List.length_cons]
    omega
  | case4 depth r _ _ ih =>
    simp only [List.length_cons]
    omega
  | case5 depth c r _ _ ih =>
    simp only [List.length_cons]
    omega

theorem afterAtRule_length_lt (r : List Char) :
    (afterAtRule ('@' :: r)).length < ('@' :: r).length := by
  have hle := Text.length_dropWhile_le (fun c => c != ';' && c != '{') r
  simp only [afterAtRule, List.length_cons]
  split
  · rename_i rest h
    rw [h] at hle
    simp only [List.length_cons] at hle
    omega
  · have := afterBlock_length_le 0 (r.dropWhile fun c => c != ';' && c != '{')
    omega

end FrameUI.Style
