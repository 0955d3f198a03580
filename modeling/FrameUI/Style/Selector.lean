import FrameUI.Markup.Element
import FrameUI.Style.Lexis

/-!
# Selectors

A selector is a list of compounds separated by blanks, and a compound is an optional tag
followed by classes `.name` and ids `#name`. The last compound has to match the element
itself, and the compounds before it have to match ancestors further and further out, not
necessarily next to each other. Specificity counts ids, classes and tags in words of 32 bits.
-/

namespace FrameUI.Style

inductive SimpleSelector where
  | tag (name : String)
  | className (name : String)
  | id (name : String)
deriving DecidableEq, Repr

/-- Conditions that one element has to meet together. -/
structure Compound where
  parts : List SimpleSelector
deriving DecidableEq, Repr

/-- Compounds from the outermost ancestor to the element. -/
structure Selector where
  compounds : List Compound
deriving DecidableEq, Repr

/-! ### Specificity -/

/-- Where a number is wanted, a word stands for the number that it holds. -/
instance coeWord : Coe UInt32 Nat := ⟨UInt32.toNat⟩

/-- How many ids, classes and tags a selector names. The counts are words and wrap around, and so
does the score. -/
structure Specificity where
  ids : UInt32
  classes : UInt32
  tags : UInt32
deriving DecidableEq, Repr

namespace Specificity

def zero : Specificity := ⟨0, 0, 0⟩

instance : Add Specificity :=
  ⟨fun a b => ⟨a.ids + b.ids, a.classes + b.classes, a.tags + b.tags⟩⟩

/-- The weight by which rules are ordered: an id counts a hundred, a class ten, a tag one. -/
def score (s : Specificity) : UInt32 := 100 * s.ids + 10 * s.classes + s.tags

/-- The least number of ids whose score wraps around weighs less than a class. -/
example : score ⟨42949673, 0, 0⟩ = 4 ∧ score ⟨0, 1, 0⟩ = 10 := by decide

end Specificity

def SimpleSelector.specificity : SimpleSelector → Specificity
  | tag _ => ⟨0, 0, 1⟩
  | className _ => ⟨0, 1, 0⟩
  | id _ => ⟨1, 0, 0⟩

def Compound.specificity (c : Compound) : Specificity :=
  (c.parts.map SimpleSelector.specificity).foldl (· + ·) .zero

def Selector.specificity (s : Selector) : Specificity :=
  (s.compounds.map Compound.specificity).foldl (· + ·) .zero

/-! ### Reading -/

/-- A condition written `#name` or `.name`, and what follows it. -/
def readQualifier? : List Char → Option (SimpleSelector × List Char)
  | '#' :: r => (readIdent? r).map fun (name, rest) => (.id (String.ofList name), rest)
  | '.' :: r => (readIdent? r).map fun (name, rest) => (.className (String.ofList name), rest)
  | _ => none

theorem readQualifier?_rest_lt (s : List Char) (q : SimpleSelector) (rest : List Char)
    (h : readQualifier? s = some (q, rest)) : rest.length < s.length := by
  unfold readQualifier? at h
  split at h
  · simp only [Option.map_eq_some_iff, Prod.mk.injEq, Prod.exists] at h
    obtain ⟨name, rest', h1, _, h2⟩ := h
    have := readIdent?_rest_lt _ _ _ h1
    rw [← h2, List.length_cons]
    omega
  · simp only [Option.map_eq_some_iff, Prod.mk.injEq, Prod.exists] at h
    obtain ⟨name, rest', h1, _, h2⟩ := h
    have := readIdent?_rest_lt _ _ _ h1
    rw [← h2, List.length_cons]
    omega
  · cases h

/-- As many qualifiers as follow each other, and what is left. -/
def readQualifiers (s : List Char) : List SimpleSelector × List Char :=
  match _ : readQualifier? s with
  | none => ([], s)
  | some (q, rest) =>
    let more := readQualifiers rest
    (q :: more.1, more.2)
termination_by s.length
decreasing_by exact readQualifier?_rest_lt _ _ _ (by assumption)

/-- An optional tag at the front of a compound, and what follows it. -/
def readTag (s : List Char) : List SimpleSelector × List Char :=
  match readIdent? s with
  | some (name, rest) => ([.tag (String.ofList name)], rest)
  | none => ([], s)

def Compound.read? (s : List Char) : Option (Compound × List Char) :=
  let (tag, afterTag) := readTag s
  let (qualifiers, rest) := readQualifiers afterTag
  if (tag ++ qualifiers).isEmpty then none else some (⟨tag ++ qualifiers⟩, rest)

/-- The compound that a word spells from end to end. -/
def Compound.ofWord? (s : List Char) : Option Compound :=
  match Compound.read? s with
  | some (c, []) => some c
  | _ => none

/-- The selector that a text spells; there is none when the text has no word or a word is no
compound. -/
def Selector.parse? (s : List Char) : Option Selector :=
  match (Text.words s).mapM Compound.ofWord? with
  | some (c :: cs) => some ⟨c :: cs⟩
  | _ => none

/-! ### Matching -/

def SimpleSelector.holds (e : Markup.Element) : SimpleSelector → Bool
  | tag name => e.tag == name
  | className name => e.hasClass name
  | id name => e.id? == some name

def Compound.matchesElement (c : Compound) (e : Markup.Element) : Bool :=
  c.parts.all (SimpleSelector.holds e)

/-- Whether every compound matches an ancestor beyond the one before it. Compounds and
ancestors both go outwards, and each compound takes the nearest ancestor that is left. -/
def matchAncestors : List Compound → List Markup.Element → Bool
  | [], _ => true
  | _ :: _, [] => false
  | c :: cs, a :: as =>
    if c.matchesElement a then matchAncestors cs as else matchAncestors (c :: cs) as

/-- Whether a selector matches an element under its ancestors, which go from the root
inwards. -/
def Selector.matchesElement (s : Selector) (e : Markup.Element)
    (ancestors : List Markup.Element) : Bool :=
  match s.compounds.reverse with
  | [] => false
  | last :: outer => last.matchesElement e && matchAncestors outer ancestors.reverse

end FrameUI.Style
