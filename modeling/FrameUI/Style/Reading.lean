import FrameUI.Style.Selector

/-!
# Reading stylesheets

A stylesheet is read from left to right as a list of marks: a rule opens, a property is
declared, a rule closes, a scope opens, a variable is defined, a scope closes. What may
come next depends on the place alone: at the top, in a scope, or in a rule. Reading looks
neither at variables nor at the list of properties, so the same text always gives the same
marks. A failure names its cause and the rest of the text where the condition was not met.

    Stylesheet := ( Scope | AtRule | Rule )*
    Scope      := 'scope' '{' ( Ident ':' Value ';' | Rule )* '}'
    Rule       := Selector '{' ( Ident ':' Value ';' )* '}'
-/

namespace FrameUI.Style

inductive Mark where
  | ruleOpened (text : String) (selector : Selector)
  | declared (name raw : String)
  | ruleClosed
  | scopeOpened
  | defined (name raw : String)
  | scopeClosed
deriving DecidableEq, Repr

inductive Cause where
  | unclosedScope
  | unclosedVariable
  | unterminatedValue
  | missingBody
  | invalidSelector (text : String)
  | expectedProperty
  | expectedColon
  | unclosedDeclaration
  | unclosedRule
deriving DecidableEq, Repr

def Cause.message : Cause → String
  | unclosedScope => "expected '\x7d' to close scope block"
  | unclosedVariable => "expected ';' after variable value"
  | unterminatedValue => "unterminated quoted value"
  | missingBody => "expected '\x7b' after selector"
  | invalidSelector text => s!"invalid selector '{text}'"
  | expectedProperty => "expected property name"
  | expectedColon => "expected ':' after property name"
  | unclosedDeclaration => "expected ';' after property value"
  | unclosedRule => "expected '\x7d' after declarations"

/-- A cause with the rest of the text at the place where it was noticed. -/
structure Failure where
  cause : Cause
  rest : List Char
deriving DecidableEq, Repr

/-! ### Parts of a stylesheet -/

/-- The head of a rule: its selector up to the opening brace. Comments in it count as
blanks. -/
def readHead (s : List Char) : Except Failure (String × Selector × List Char) :=
  let (raw, rest) := readSelector s
  match rest with
  | [] => .error ⟨.missingBody, []⟩
  | _ :: body =>
    let text := Text.trim (blankComments raw)
    match Selector.parse? text with
    | some selector => .ok (String.ofList text, selector, body)
    | none => .error ⟨.invalidSelector (String.ofList text), s⟩

/-- A property or variable up to the end of its value: name, colon, value. The remaining
text begins where a semicolon is due. -/
def readPair (s : List Char) : Except Failure (String × String × List Char) :=
  match readIdent? s with
  | none => .error ⟨.expectedProperty, s⟩
  | some (name, afterIdent) =>
    match afterTrivia afterIdent with
    | ':' :: r =>
      match readValue? (afterTrivia r) with
      | none => .error ⟨.unterminatedValue, afterTrivia r⟩
      | some (value, rest) => .ok (String.ofList name, String.ofList value, afterTrivia rest)
    | rest => .error ⟨.expectedColon, rest⟩

/-- Whether a text begins with a name and a colon, as variables do. -/
def startsVariable (s : List Char) : Bool :=
  match readIdent? s with
  | none => false
  | some (_, rest) => (afterTrivia rest).head? == some ':'

theorem readHead_rest_lt (s : List Char) (text : String) (selector : Selector)
    (rest : List Char) (h : readHead s = .ok (text, selector, rest)) :
    rest.length < s.length := by
  have hle := Text.length_dropWhile_le (· != '{') s
  simp only [readHead, readSelector] at h
  split at h
  · cases h
  · rename_i c body hb
    rw [hb] at hle
    split at h
    · simp only [Except.ok.injEq, Prod.mk.injEq] at h
      rw [← h.2.2]
      simp only [List.length_cons] at hle
      omega
    · cases h

theorem readPair_rest_lt (s : List Char) (name raw : String) (rest : List Char)
    (h : readPair s = .ok (name, raw, rest)) : rest.length < s.length := by
  unfold readPair at h
  split at h
  · cases h
  · rename_i n afterIdent hi
    have h1 := readIdent?_rest_lt _ _ _ hi
    have h2 := afterTrivia_length_le afterIdent
    split at h
    · rename_i r hr
      rw [hr] at h2
      split at h
      · cases h
      · rename_i value rest' hv
        have h3 := readValue?_rest_le _ _ _ hv
        have h4 := afterTrivia_length_le r
        have h5 := afterTrivia_length_le rest'
        simp only [Except.ok.injEq, Prod.mk.injEq] at h
        rw [← h.2.2]
        simp only [List.length_cons] at h2
        omega
    · cases h

/-! ### Places and steps -/

/-- Where in a stylesheet the reader stands. -/
inductive Place where
  | top
  | scope
  | rule (inScope : Bool)
deriving DecidableEq, Repr

/-- One step: it stops, with or without a failure, or it goes on at a place. -/
inductive Step where
  | stop (marks : List Mark) (failure : Option Failure)
  | go (marks : List Mark) (place : Place) (rest : List Char)
deriving DecidableEq, Repr

def stepHead (inScope : Bool) (s : List Char) : Step :=
  match readHead s with
  | .error f => .stop [] (some f)
  | .ok (text, selector, rest) => .go [.ruleOpened text selector] (.rule inScope) rest

def stepTop (s : List Char) : Step :=
  match s with
  | [] => .stop [] none
  | c :: r =>
    match openScope? (c :: r) with
    | some rest => .go [.scopeOpened] .scope rest
    | none => if c = '@' then .go [] .top (afterAtRule ('@' :: r)) else stepHead false (c :: r)

def stepScope (s : List Char) : Step :=
  match s with
  | [] => .stop [] (some ⟨.unclosedScope, []⟩)
  | c :: r =>
    if c = '}' then .go [.scopeClosed] .top r
    else if startsVariable (c :: r) then
      match readPair (c :: r) with
      | .error f => .stop [] (some f)
      | .ok (name, raw, rest) =>
        match rest with
        | ';' :: rest => .go [.defined name raw] .scope rest
        | _ => .stop [] (some ⟨.unclosedVariable, rest⟩)
    else stepHead true (c :: r)

/-- Reads in a rule: its end or a declaration. A declaration counts as made once its value
has been read, even if the semicolon is missing. -/
def stepRule (inScope : Bool) (s : List Char) : Step :=
  match s with
  | [] => .stop [] (some ⟨.unclosedRule, []⟩)
  | c :: r =>
    if c = '}' then .go [.ruleClosed] (if inScope then .scope else .top) r
    else
      match readPair (c :: r) with
      | .error f => .stop [] (some f)
      | .ok (name, raw, rest) =>
        match rest with
        | ';' :: rest => .go [.declared name raw] (.rule inScope) rest
        | _ => .stop [.declared name raw] (some ⟨.unclosedDeclaration, rest⟩)

/-- Reads the next item at any place, after any trivia. -/
def step (p : Place) (s : List Char) : Step :=
  match p with
  | .top => stepTop (afterTrivia s)
  | .scope => stepScope (afterTrivia s)
  | .rule inScope => stepRule inScope (afterTrivia s)

theorem stepHead_rest_lt (inScope : Bool) (s rest : List Char) (ms : List Mark) (p : Place)
    (h : stepHead inScope s = .go ms p rest) : rest.length < s.length := by
  unfold stepHead at h
  split at h
  · cases h
  · rename_i text selector rest' hh
    simp only [Step.go.injEq] at h
    rw [← h.2.2]
    exact readHead_rest_lt _ _ _ _ hh

theorem stepTop_rest_lt (s rest : List Char) (ms : List Mark) (p : Place)
    (h : stepTop s = .go ms p rest) : rest.length < s.length := by
  unfold stepTop at h
  split at h
  · cases h
  · rename_i c r
    split at h
    · rename_i rest' ho
      simp only [Step.go.injEq] at h
      rw [← h.2.2]
      exact openScope?_rest_lt _ _ ho
    · split at h
      · simp only [Step.go.injEq] at h
        rw [← h.2.2]
        simpa using afterAtRule_length_lt r
      · exact stepHead_rest_lt _ _ _ _ _ h

theorem stepScope_rest_lt (s rest : List Char) (ms : List Mark) (p : Place)
    (h : stepScope s = .go ms p rest) : rest.length < s.length := by
  unfold stepScope at h
  split at h
  · cases h
  · rename_i c r
    split at h
    · simp only [Step.go.injEq] at h
      rw [← h.2.2]
      simp
    · split at h
      · split at h
        · cases h
        · rename_i name raw rest' hp
          have h1 := readPair_rest_lt _ _ _ _ hp
          split at h
          · simp only [Step.go.injEq] at h
            rw [← h.2.2]
            simp only [List.length_cons] at h1 ⊢
            omega
          · cases h
      · exact stepHead_rest_lt _ _ _ _ _ h

theorem stepRule_rest_lt (inScope : Bool) (s rest : List Char) (ms : List Mark) (p : Place)
    (h : stepRule inScope s = .go ms p rest) : rest.length < s.length := by
  unfold stepRule at h
  split at h
  · cases h
  · rename_i c r
    split at h
    · simp only [Step.go.injEq] at h
      rw [← h.2.2]
      simp
    · split at h
      · cases h
      · rename_i name raw rest' hp
        have h1 := readPair_rest_lt _ _ _ _ hp
        split at h
        · simp only [Step.go.injEq] at h
          rw [← h.2.2]
          simp only [List.length_cons] at h1 ⊢
          omega
        · cases h

/-- A step that goes on has consumed something. -/
theorem step_rest_lt (p p' : Place) (s rest : List Char) (ms : List Mark)
    (h : step p s = .go ms p' rest) : rest.length < s.length := by
  have hs := afterTrivia_length_le s
  suffices rest.length < (afterTrivia s).length by omega
  cases p with
  | top => exact stepTop_rest_lt _ _ _ _ h
  | scope => exact stepScope_rest_lt _ _ _ _ h
  | rule inScope => exact stepRule_rest_lt _ _ _ _ _ h

/-! ### Whole texts -/

/-- The marks of a text up to its end or to the first failure. -/
structure Reading where
  marks : List Mark
  failure : Option Failure
deriving DecidableEq, Repr

/-- The same reading after some earlier marks. -/
def Reading.after (earlier : List Mark) (r : Reading) : Reading :=
  { r with marks := earlier ++ r.marks }

/-- Reads on from a place until the text ends or fails. -/
def readFrom (p : Place) (s : List Char) : Reading :=
  match _ : step p s with
  | .stop marks failure => ⟨marks, failure⟩
  | .go marks place rest => (readFrom place rest).after marks
termination_by s.length
decreasing_by exact step_rest_lt _ _ _ _ _ (by assumption)

def read (source : List Char) : Reading := readFrom .top source

theorem readFrom_of_stop (p : Place) (s : List Char) (ms : List Mark) (f : Option Failure)
    (h : step p s = .stop ms f) : readFrom p s = ⟨ms, f⟩ := by
  rw [readFrom]
  split
  · rename_i h'
    rw [h] at h'
    cases h'
    rfl
  · rename_i h'
    rw [h] at h'
    cases h'

theorem readFrom_of_go (p p' : Place) (s rest : List Char) (ms : List Mark)
    (h : step p s = .go ms p' rest) : readFrom p s = (readFrom p' rest).after ms := by
  rw [readFrom]
  split
  · rename_i h'
    rw [h] at h'
    cases h'
  · rename_i h'
    rw [h] at h'
    cases h'
    rfl

end FrameUI.Style
