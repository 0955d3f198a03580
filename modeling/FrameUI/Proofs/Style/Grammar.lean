import FrameUI.Proofs.Tables
import FrameUI.Style.Parse

/-!
# The language of stylesheets

Which texts spell which stylesheet, and which rules and variables a stylesheet stands for,
said without a reader:

    Sheet := ( Rule | 'scope' '{' ( Name ':' Value ';' | Rule )* '}' )*
    Rule  := Compound+ '{' ( Name ':' Value ';' )* '}'

Any trivia may stand between tokens, and there has to be some between two compounds. Every
rule sees the variables that were declared before it: those of the blocks before its own, and
in its own block those above it.
-/

namespace FrameUI.Style

/-! ### Abstract syntax -/

/-- A rule as its author means it. -/
structure RuleItem where
  selector : Selector
  declarations : List (String × String)

/-- What stands in a scope block. -/
inductive ScopeItem where
  | define (name raw : String)
  | rule (rule : RuleItem)

/-- What stands at the top of a sheet. -/
inductive SheetItem where
  | rule (rule : RuleItem)
  | scope (items : List ScopeItem)

/-! ### Trivia and values -/

/-- The characters that end a comment. -/
def commentEnd : List Char := ['*', '/']

/-- Runs of white space and complete comments. -/
inductive Trivia : List Char → Prop
  | nil : Trivia []
  | space (c : Char) (rest : List Char) : isSpace c = true → Trivia rest → Trivia (c :: rest)
  | comment (body rest : List Char) : Text.occursIn commentEnd body = false → Trivia rest →
      Trivia ('/' :: '*' :: (body ++ '*' :: '/' :: rest))

/-- An identifier: a run of letters, digits, `_` and `-` that is not empty. -/
structure IsIdent (name : String) : Prop where
  nonempty : name.toList ≠ []
  letters : ∀ c ∈ name.toList, Text.isNameChar c = true

/-- A value from its first character to the semicolon after it. A bare value begins with no
quote and no comment, and ends at once with the semicolon or with white space. -/
inductive ValueText : String → List Char → Prop
  | quoted (q : Char) (raw trivia : List Char) : q = '\x22' ∨ q = '\x27' → q ∉ raw →
      Trivia trivia → ValueText (String.ofList raw) (q :: (raw ++ q :: (trivia ++ [';'])))
  | bare (raw trivia : List Char) : (∀ c ∈ raw, isBare c = true) →
      (∀ q r, raw = q :: r → q ≠ '\x22' ∧ q ≠ '\x27') → (∀ r, raw ≠ '/' :: '*' :: r) →
      Trivia trivia → (trivia ≠ [] → ∃ c r, isSpace c = true ∧ trivia = c :: r) →
      ValueText (String.ofList raw) (raw ++ (trivia ++ [';']))

/-- A declaration of a property or a variable, up to its semicolon. -/
inductive PairText (name raw : String) : List Char → Prop
  | mk (before after value : List Char) : IsIdent name → Trivia before → Trivia after →
      ValueText raw value → PairText name raw (name.toList ++ (before ++ ':' :: (after ++ value)))

/-! ### Selectors -/

/-- The name in a condition. -/
def SimpleSelector.name : SimpleSelector → String
  | tag name => name
  | className name => name
  | id name => name

def SimpleSelector.isTag : SimpleSelector → Bool
  | tag _ => true
  | _ => false

/-- How a condition is spelled. -/
def SimpleSelector.spelled : SimpleSelector → List Char
  | tag name => name.toList
  | className name => '.' :: name.toList
  | id name => '#' :: name.toList

/-- How a compound is spelled: as one token. -/
def Compound.spelled (c : Compound) : List Char := c.parts.flatMap SimpleSelector.spelled

/-- The compounds that can be spelled: some conditions on names, a tag only in front. -/
structure Compound.Supported (c : Compound) : Prop where
  nonempty : c.parts ≠ []
  names : ∀ part ∈ c.parts, IsIdent part.name
  tagFirst : ∀ part ∈ c.parts.tail, part.isTag = false

/-- Compounds one after another, with trivia between them that hold no brace. -/
inductive SelectorText : List Compound → List Char → Prop
  | last (c : Compound) : c.Supported → SelectorText [c] c.spelled
  | more (c : Compound) (cs : List Compound) (trivia rest : List Char) : c.Supported →
      Trivia trivia → trivia ≠ [] → '{' ∉ trivia → SelectorText cs rest →
      SelectorText (c :: cs) (c.spelled ++ (trivia ++ rest))

/-! ### Rules, blocks and sheets -/

/-- The declarations of a rule after its opening brace, and the closing one. -/
inductive BodyText : List (String × String) → List Char → Prop
  | close (trivia : List Char) : Trivia trivia → BodyText [] (trivia ++ ['}'])
  | declare (name raw : String) (pairs : List (String × String)) (trivia pair rest : List Char) :
      Trivia trivia → PairText name raw pair → BodyText pairs rest →
      BodyText ((name, raw) :: pairs) (trivia ++ (pair ++ rest))

/-- A rule from its first compound to its closing brace. -/
inductive RuleText (r : RuleItem) : List Char → Prop
  | mk (head trivia body : List Char) : SelectorText r.selector.compounds head →
      Trivia trivia → '{' ∉ trivia → BodyText r.declarations body →
      RuleText r (head ++ (trivia ++ '{' :: body))

/-- What a scope block holds after its opening brace, and the closing one. -/
inductive ScopeText : List ScopeItem → List Char → Prop
  | close (trivia : List Char) : Trivia trivia → ScopeText [] (trivia ++ ['}'])
  | define (name raw : String) (items : List ScopeItem) (trivia pair rest : List Char) :
      Trivia trivia → PairText name raw pair → ScopeText items rest →
      ScopeText (.define name raw :: items) (trivia ++ (pair ++ rest))
  | rule (r : RuleItem) (items : List ScopeItem) (trivia text rest : List Char) :
      Trivia trivia → RuleText r text → ScopeText items rest →
      ScopeText (.rule r :: items) (trivia ++ (text ++ rest))

/-- The keyword before a scope block. -/
def scopeWord : List Char := ['s', 'c', 'o', 'p', 'e']

/-- The selector that at the top of a sheet is taken for that keyword. -/
def scopeSelector : Selector := ⟨[⟨[.tag "scope"]⟩]⟩

/-- A whole sheet. -/
inductive SheetText : List SheetItem → List Char → Prop
  | finish (trivia : List Char) : Trivia trivia → SheetText [] trivia
  | rule (r : RuleItem) (items : List SheetItem) (trivia text rest : List Char) :
      Trivia trivia → RuleText r text → r.selector ≠ scopeSelector → SheetText items rest →
      SheetText (.rule r :: items) (trivia ++ (text ++ rest))
  | scope (inner : List ScopeItem) (items : List SheetItem)
      (trivia trivia' text rest : List Char) :
      Trivia trivia → Trivia trivia' → ScopeText inner text → SheetText items rest →
      SheetText (.scope inner :: items)
        (trivia ++ (scopeWord ++ (trivia' ++ '{' :: (text ++ rest))))

/-! ### What a sheet stands for -/

/-- The variables that a block declares, in order. -/
def scopeVariables (items : List ScopeItem) : List (String × String) :=
  items.filterMap fun
    | .define name raw => some (name, raw)
    | .rule _ => none

/-- The variables that an item declares, in order. -/
def SheetItem.variables : SheetItem → List (String × String)
  | .rule _ => []
  | .scope items => scopeVariables items

/-- The rules of a block, each with the variables visible to it, given those of the blocks
before and those that the block has declared so far. -/
def scopeRules (earlier locals : List (String × String)) :
    List ScopeItem → List (Bindings × RuleItem)
  | [] => []
  | .define name raw :: items => scopeRules earlier (locals ++ [(name, raw)]) items
  | .rule r :: items =>
    (.layered (.ofList earlier) (.ofList locals), r) :: scopeRules earlier locals items

/-- The rules of a sheet in source order, each with the variables visible to it, given those
that have been declared before. -/
def sheetRules (earlier : List (String × String)) : List SheetItem → List (Bindings × RuleItem)
  | [] => []
  | .rule r :: items => (.ofTable (.ofList earlier), r) :: sheetRules earlier items
  | .scope inner :: items =>
    scopeRules earlier [] inner ++ sheetRules (earlier ++ scopeVariables inner) items

/-- A parsed rule is what an author meant, under the variables visible to it: every property
has the last value declared for it, with the variables put in. -/
structure Means (vars : Bindings) (item : RuleItem) (r : Rule) : Prop where
  selector : r.selector = item.selector
  specificity : r.specificity = item.selector.specificity.score
  properties : ∀ name, r.properties.find? name =
    (Dict.lastOf? name item.declarations).map fun raw => (substitute vars raw).value

end FrameUI.Style
