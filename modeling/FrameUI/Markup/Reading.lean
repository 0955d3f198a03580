import FrameUI.Markup.Entity
import FrameUI.Markup.Tag
import FrameUI.Text.Blank
import FrameUI.Text.Name

/-!
# Reading markup

A document is read from left to right as a list of events: an element opens, an attribute
is given, a run of text stands, an element closes. What may come next depends on the place
alone: before the root, inside a stack of open elements, or after the root. One step reads
one tag, comment or run, so it always consumes something, and reading is the repetition of
that step. A failure names its cause and the rest of the text where the condition was not
met.

The grammar is a small part of XML:

    Element  := '<' Name Attrs ( '/>' | '>' Children '</' Name '>' )
    Attrs    := ( Name '=' ( '"' .. '"' | ''' .. ''' ) )*
    Children := ( Element | '<!--' .. '-->' | Text )*
-/

namespace FrameUI.Markup

/-- The deepest nesting of elements that is read, the root counting as one. -/
def maxDepth : Nat := 256

inductive Event where
  | opened (tag : String)
  | given (name raw : String)
  | run (raw : String)
  | closed
deriving DecidableEq, Repr

inductive Cause where
  | expectedOpening
  | expectedToken (token : String)
  | emptyName (what : String)
  | unquotedValue
  | unclosedValue
  | mismatchedClosing (expected found : String)
  | wrongRoot (found : String)
  | tooDeep
  | trailingContent
deriving DecidableEq, Repr

/-- A cause with the rest of the text at the place where it was noticed. -/
structure Failure where
  cause : Cause
  rest : List Char
deriving DecidableEq, Repr

/-! ### Attributes and opening tags -/

/-- Reads one attribute: a name, `=`, and a value between two equal quotes. The value is
returned as it stands, entities included. -/
def readAttribute (s : List Char) : Except Failure (String × String × List Char) :=
  if (Text.nameRun s).isEmpty then .error ⟨.emptyName "attribute", s⟩
  else match Text.afterName s with
    | '=' :: r =>
      match r with
      | q :: v =>
        if q = Entity.quote ∨ q = Entity.apostrophe then
          match v.dropWhile (· != q) with
          | _ :: rest =>
            .ok (String.ofList (Text.nameRun s), String.ofList (v.takeWhile (· != q)), rest)
          | [] => .error ⟨.unclosedValue, []⟩
        else .error ⟨.unquotedValue, r⟩
      | [] => .error ⟨.unquotedValue, r⟩
    | r => .error ⟨.expectedToken "=", r⟩

theorem readAttribute_rest_lt (s : List Char) (name raw : String) (rest : List Char)
    (h : readAttribute s = .ok (name, raw, rest)) : rest.length < s.length := by
  unfold readAttribute at h
  split at h
  · cases h
  · rename_i hn
    have hlt := Text.afterName_length_lt s (by simpa using hn)
    split at h
    · rename_i r hr
      rw [hr] at hlt
      split at h
      · rename_i q v
        split at h
        · split at h
          · rename_i d rest' hd
            have hle := Text.length_dropWhile_le (· != q) v
            rw [hd] at hle
            simp only [Except.ok.injEq, Prod.mk.injEq] at h
            rw [← h.2.2]
            simp only [List.length_cons] at hle hlt
            omega
          · cases h
        · cases h
      · cases h
    · cases h

/-- What was read of an opening tag: its events, and how it ended. A tag that ends well
tells whether it closes itself and what follows it. -/
structure Opening where
  events : List Event
  ending : Except Failure (Bool × List Char)

def tagEnd : List Char → Except Failure (Bool × List Char)
  | '/' :: '>' :: r => .ok (true, r)
  | '>' :: r => .ok (false, r)
  | s => .error ⟨.expectedToken ">", s⟩

def atTagEnd : List Char → Bool
  | [] => true
  | c :: _ => c == '>' || c == '/'

def readAttributes (s : List Char) : Opening :=
  if atTagEnd (Text.trimStart s) then ⟨[], tagEnd (Text.trimStart s)⟩
  else match _ : readAttribute (Text.trimStart s) with
    | .error f => ⟨[], .error f⟩
    | .ok (name, raw, rest) =>
      let more := readAttributes rest
      ⟨.given name raw :: more.events, more.ending⟩
termination_by s.length
decreasing_by
  have h1 := readAttribute_rest_lt _ _ _ _ (by assumption)
  have h2 := Text.trimStart_length_le s
  omega

def readOpening (s : List Char) : Opening :=
  if (Text.nameRun s).isEmpty then ⟨[], .error ⟨.emptyName "tag", s⟩⟩
  else
    let attributes := readAttributes (Text.afterName s)
    ⟨.opened (String.ofList (Text.nameRun s)) :: attributes.events, attributes.ending⟩

theorem tagEnd_rest_lt (s : List Char) (b : Bool) (rest : List Char)
    (h : tagEnd s = .ok (b, rest)) : rest.length < s.length := by
  unfold tagEnd at h
  split at h
  · simp only [Except.ok.injEq, Prod.mk.injEq] at h
    rw [← h.2]
    simp only [List.length_cons]
    omega
  · simp only [Except.ok.injEq, Prod.mk.injEq] at h
    rw [← h.2]
    simp
  · cases h

theorem readAttributes_rest_lt (s : List Char) (b : Bool) (rest : List Char)
    (h : (readAttributes s).ending = .ok (b, rest)) : rest.length < s.length := by
  have hs := Text.trimStart_length_le s
  unfold readAttributes at h
  split at h
  · have := tagEnd_rest_lt _ _ _ h
    omega
  · split at h
    · cases h
    · rename_i name raw rest' ha
      have h1 := readAttribute_rest_lt _ _ _ _ ha
      have h2 := readAttributes_rest_lt rest' b rest h
      omega
termination_by s.length
decreasing_by omega

theorem readOpening_rest_lt (s : List Char) (b : Bool) (rest : List Char)
    (h : (readOpening s).ending = .ok (b, rest)) : rest.length < s.length := by
  unfold readOpening at h
  split at h
  · cases h
  · have h1 := readAttributes_rest_lt _ _ _ h
    have h2 := Text.afterName_length_le s
    omega

/-! ### Content -/

/-- The text after the first `-->`, or nothing when there is none. -/
def afterComment : List Char → List Char
  | '-' :: '-' :: '>' :: r => r
  | _ :: r => afterComment r
  | [] => []

/-- What stands next inside an element, with the text after it. -/
inductive Piece where
  | nothing
  | closing (rest : List Char)
  | comment (rest : List Char)
  | opening (rest : List Char)
  | run (raw rest : List Char)
deriving DecidableEq, Repr

def piece : List Char → Piece
  | [] => .nothing
  | '<' :: '/' :: r => .closing r
  | '<' :: '!' :: '-' :: '-' :: r => .comment (afterComment r)
  | '<' :: r => .opening r
  | c :: r => .run ((c :: r).takeWhile (· != '<')) ((c :: r).dropWhile (· != '<'))

/-- A closing tag of the element `tag`, after its `</`. -/
def readClosing (tag : String) (s : List Char) : Except Failure (List Char) :=
  let found := String.ofList (Text.nameRun s)
  if found = tag then
    match Text.afterName s with
    | '>' :: r => .ok r
    | r => .error ⟨.expectedToken ">", r⟩
  else .error ⟨.mismatchedClosing tag found, s⟩

theorem afterComment_length_le (s : List Char) : (afterComment s).length ≤ s.length := by
  fun_induction afterComment s with
  | case1 r =>
    simp only [List.length_cons]
    omega
  | case2 c r _ ih =>
    simp only [List.length_cons]
    omega
  | case3 => simp

theorem readClosing_rest_lt (tag : String) (s rest : List Char)
    (h : readClosing tag s = .ok rest) : rest.length < s.length := by
  have hle := Text.afterName_length_le s
  simp only [readClosing] at h
  split at h
  · split at h
    · rename_i r hr
      rw [hr] at hle
      simp only [Except.ok.injEq] at h
      rw [← h]
      simp only [List.length_cons] at hle
      omega
    · cases h
  · cases h

/-- The text after a piece, if the piece is a comment or a run. -/
theorem piece_rest_lt (s rest : List Char)
    (h : (∃ raw, piece s = .run raw rest) ∨ piece s = .comment rest) :
    rest.length < s.length := by
  unfold piece at h
  split at h
  · simp at h
  · simp at h
  · rename_i r
    have hle := afterComment_length_le r
    simp only [reduceCtorEq, exists_false, false_or, Piece.comment.injEq] at h
    rw [← h]
    simp only [List.length_cons]
    omega
  · simp at h
  · rename_i c r _ _ hlt
    simp only [Piece.run.injEq, reduceCtorEq, or_false, exists_eq_left'] at h
    have hc : c ≠ '<' := hlt
    rw [← h, List.dropWhile_cons]
    have hle := Text.length_dropWhile_le (· != '<') r
    simp only [bne_iff_ne, ne_eq, hc, not_false_eq_true, if_true, List.length_cons]
    omega

theorem piece_inner_lt (s rest : List Char)
    (h : piece s = .closing rest ∨ piece s = .opening rest) : rest.length < s.length := by
  unfold piece at h
  split at h <;> simp at h
  · rw [← h]
    simp only [List.length_cons]
    omega
  · rw [← h]
    simp

/-! ### Places and steps -/

/-- Where in a document the reader stands. Inside, the innermost open element comes first
and the elements around it follow outwards. -/
inductive Place where
  | start
  | inside (tag : String) (outer : List String)
  | finished
deriving DecidableEq, Repr

/-- One step: it stops, with or without a failure, or it goes on at a place. -/
inductive Step where
  | stop (events : List Event) (failure : Option Failure)
  | go (events : List Event) (place : Place) (rest : List Char)
deriving DecidableEq, Repr

/-- Leaves an element that has just closed, for the one around it or for the end. -/
def leave (around : List String) (events : List Event) (tag : String) (rest : List Char) :
    Step :=
  match around with
  | parent :: outer => .go events (.inside parent outer) rest
  | [] =>
    if tag = rootName then .go events .finished rest
    else .stop events (some ⟨.wrongRoot tag, rest⟩)

/-- Reads an opening tag after its `<`, inside the elements `around`. -/
def enter (around : List String) (s : List Char) : Step :=
  let opening := readOpening s
  let tag := String.ofList (Text.nameRun s)
  match opening.ending with
  | .error f => .stop opening.events (some f)
  | .ok (true, rest) => leave around (opening.events ++ [.closed]) tag rest
  | .ok (false, rest) => .go opening.events (.inside tag around) rest

def stepInside (tag : String) (outer : List String) (s : List Char) : Step :=
  match piece s with
  | .nothing => .stop [] (some ⟨.expectedToken "</", s⟩)
  | .closing r =>
    match readClosing tag r with
    | .error f => .stop [] (some f)
    | .ok rest => leave outer [.closed] tag rest
  | .comment rest => .go [] (.inside tag outer) rest
  | .opening r =>
    if maxDepth ≤ outer.length + 1 then .stop [] (some ⟨.tooDeep, s⟩)
    else enter (tag :: outer) r
  | .run raw rest => .go [.run (String.ofList raw)] (.inside tag outer) rest

def step : Place → List Char → Step
  | .start, '<' :: r => enter [] r
  | .start, s => .stop [] (some ⟨.expectedOpening, s⟩)
  | .inside tag outer, s => stepInside tag outer (Text.trimStart s)
  | .finished, s =>
    match Text.trimStart s with
    | [] => .stop [] none
    | t => .stop [] (some ⟨.trailingContent, t⟩)

theorem leave_rest (around : List String) (es es' : List Event) (tag : String)
    (s rest : List Char) (p : Place) (h : leave around es tag s = .go es' p rest) :
    rest = s := by
  unfold leave at h
  split at h
  · simp only [Step.go.injEq] at h
    exact h.2.2.symm
  · split at h
    · simp only [Step.go.injEq] at h
      exact h.2.2.symm
    · cases h

theorem enter_rest_lt (around : List String) (es : List Event) (s rest : List Char)
    (p : Place) (h : enter around s = .go es p rest) : rest.length < s.length := by
  simp only [enter] at h
  split at h
  · cases h
  · rename_i rest' hr
    rw [leave_rest _ _ _ _ _ _ _ h]
    exact readOpening_rest_lt s true rest' hr
  · rename_i rest' hr
    simp only [Step.go.injEq] at h
    rw [← h.2.2]
    exact readOpening_rest_lt s false rest' hr

/-- A step that goes on has consumed something. -/
theorem step_rest_lt (p p' : Place) (es : List Event) (s rest : List Char)
    (h : step p s = .go es p' rest) : rest.length < s.length := by
  unfold step at h
  split at h
  · have := enter_rest_lt _ _ _ _ _ h
    simp only [List.length_cons]
    omega
  · cases h
  · rename_i tag outer
    have ht := Text.trimStart_length_le s
    suffices rest.length < (Text.trimStart s).length by omega
    unfold stepInside at h
    split at h
    · cases h
    · rename_i r hp
      have h1 := piece_inner_lt _ r (Or.inl hp)
      split at h
      · cases h
      · rename_i rest' hc
        rw [leave_rest _ _ _ _ _ _ _ h]
        have h2 := readClosing_rest_lt _ _ _ hc
        omega
    · rename_i rest' hp
      simp only [Step.go.injEq] at h
      rw [← h.2.2]
      exact piece_rest_lt _ _ (Or.inr hp)
    · rename_i r hp
      have h1 := piece_inner_lt _ r (Or.inr hp)
      split at h
      · cases h
      · have h2 := enter_rest_lt _ _ _ _ _ h
        omega
    · rename_i raw rest' hp
      simp only [Step.go.injEq] at h
      rw [← h.2.2]
      exact piece_rest_lt _ _ (Or.inl ⟨raw, hp⟩)
  · split at h <;> cases h

/-! ### Whole texts -/

/-- The events of a text up to its end or to the first failure. -/
structure Reading where
  events : List Event
  failure : Option Failure
deriving DecidableEq, Repr

/-- The same reading after some earlier events. -/
def Reading.after (earlier : List Event) (r : Reading) : Reading :=
  { r with events := earlier ++ r.events }

/-- Reads on from a place until the text ends or fails. -/
def readFrom (p : Place) (s : List Char) : Reading :=
  match _ : step p s with
  | .stop events failure => ⟨events, failure⟩
  | .go events place rest => (readFrom place rest).after events
termination_by s.length
decreasing_by exact step_rest_lt _ _ _ _ _ (by assumption)

/-- Reads a document. Blanks around it do not count. -/
def read (source : List Char) : Reading := readFrom .start (Text.trim source)

theorem readFrom_of_stop (p : Place) (s : List Char) (es : List Event) (f : Option Failure)
    (h : step p s = .stop es f) : readFrom p s = ⟨es, f⟩ := by
  rw [readFrom]
  split
  · rename_i es' f' h'
    rw [h] at h'
    cases h'
    rfl
  · rename_i h'
    rw [h] at h'
    cases h'

theorem readFrom_of_go (p p' : Place) (s rest : List Char) (es : List Event)
    (h : step p s = .go es p' rest) : readFrom p s = (readFrom p' rest).after es := by
  rw [readFrom]
  split
  · rename_i h'
    rw [h] at h'
    cases h'
  · rename_i h'
    rw [h] at h'
    cases h'
    rfl

end FrameUI.Markup
