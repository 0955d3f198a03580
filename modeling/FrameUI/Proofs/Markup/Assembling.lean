import FrameUI.Proofs.Markup.Grammar
import FrameUI.Proofs.Outcome

/-!
# Assembling trees

What the events of a text make of a tree under construction when no check stops it. The
events of one element, put together, hand that element to whatever is around it, and the
events of several nodes append these nodes to the innermost open element.
-/

namespace FrameUI.Markup

namespace Assembly

/-- Takes in one event without looking at any check. -/
def grow (a : Assembly) : Event → Assembly
  | .opened tag => { a with pending := .ofTag tag :: a.pending }
  | .given name raw =>
    match a.pending with
    | [] => a
    | e :: outer => { a with pending := e.withAttribute name (Entity.unescape raw) :: outer }
  | .run raw =>
    if (Text.trim raw.toList).isEmpty then a else a.attach (.text (Entity.unescape raw))
  | .closed => a.close

/-- Hands a finished element to the innermost open one, or makes it the root. -/
def receive (a : Assembly) (e : Element) : Assembly :=
  match a.pending with
  | [] => ⟨[], some e⟩
  | _ :: _ => a.attach (.element e)

/-! ### Lenient assembling -/

theorem outcome_take_lenient (a : Assembly) (event : Event) :
    Checked.outcome (a.take .lenient event) = .ok (a.grow event) := by
  cases event with
  | opened tag =>
    simp only [take]
    rw [Checked.outcome_bind_of_ok _ _ _ (Validator.outcome_tag_lenient tag)]
    rfl
  | given name raw =>
    simp only [take, grow]
    cases a.pending with
    | nil => rfl
    | cons e outer =>
      simp only
      rw [Checked.outcome_bind_of_ok _ _ _ (Validator.outcome_attributeName_lenient e.tag name),
        Checked.outcome_bind_of_ok _ _ _ (Validator.outcome_attributeValue_lenient name raw)]
      rfl
  | run raw =>
    simp only [take, grow]
    rw [Checked.outcome_bind_of_ok _ _ _ (Validator.outcome_text_lenient raw)]
    split
    · rfl
    · rfl
  | closed => rfl

theorem outcome_takeAll_lenient (a : Assembly) (events : List Event) :
    Checked.outcome (a.takeAll .lenient events) = .ok (events.foldl grow a) := by
  induction events generalizing a with
  | nil => rfl
  | cons event events ih =>
    simp only [takeAll, List.foldl_cons]
    rw [Checked.outcome_bind_of_ok _ _ _ (outcome_take_lenient a event)]
    exact ih (a.grow event)

/-! ### The events of attributes, elements and nodes -/

theorem close_cons (e : Element) (outer : List Element) (root : Option Element) :
    close ⟨e :: outer, root⟩ = receive ⟨outer, root⟩ e := by
  cases outer with
  | nil => rfl
  | cons parent outer => rfl

/-- The events of written attributes. -/
def givenEvents (pairs : List (String × String)) : List Event :=
  pairs.map fun pair => .given pair.1 pair.2

/-- A table after written attributes have been added from first to last. -/
def addAttributes (table : Dict String) : List (String × String) → Dict String
  | [] => table
  | pair :: pairs => addAttributes (table.insert pair.1 (Entity.unescape pair.2)) pairs

theorem addAttributes_eq_foldl (table : Dict String) (pairs : List (String × String)) :
    addAttributes table pairs =
      (pairs.map fun pair => (pair.1, Entity.unescape pair.2)).foldl
        (fun acc pair => acc.insert pair.1 pair.2) table := by
  induction pairs generalizing table with
  | nil => rfl
  | cons pair pairs ih => exact ih _

theorem foldl_grow_givenEvents (pairs : List (String × String)) (e : Element)
    (outer : List Element) (root : Option Element) :
    (givenEvents pairs).foldl grow ⟨e :: outer, root⟩ =
      ⟨{ e with attributes := addAttributes e.attributes pairs } :: outer, root⟩ := by
  induction pairs generalizing e with
  | nil =>
    cases e
    rfl
  | cons pair pairs ih => exact ih (e.withAttribute pair.1 (Entity.unescape pair.2))

/-- Whether some events hand one finished element to whatever is around. -/
def Makes (events : List Event) (e : Element) : Prop :=
  ∀ a : Assembly, events.foldl grow a = a.receive e

/-- Whether some events append nodes to the innermost open element. -/
def Adds (events : List Event) (nodes : List Node) : Prop :=
  ∀ (e : Element) (outer : List Element) (root : Option Element),
    events.foldl grow ⟨e :: outer, root⟩ =
      ⟨{ e with children := e.children ++ nodes } :: outer, root⟩

theorem adds_nil : Adds [] [] := by
  intro e outer root
  cases e
  simp

theorem Adds.append {es fs : List Event} {ns ms : List Node} (h1 : Adds es ns)
    (h2 : Adds fs ms) : Adds (es ++ fs) (ns ++ ms) := by
  intro e outer root
  rw [List.foldl_append, h1, h2]
  simp

theorem Makes.adds {events : List Event} {e : Element} (h : Makes events e) :
    Adds events [.element e] := by
  intro parent outer root
  rw [h]
  rfl

theorem adds_run (raw : String) (h : (Text.trim raw.toList).isEmpty = false) :
    Adds [.run raw] [.text (Entity.unescape raw)] := by
  intro e outer root
  simp only [List.foldl_cons, List.foldl_nil, grow, h]
  rfl

/-- An element opens, has its attributes, has its children and closes. -/
theorem makes_element (tag : String) (pairs : List (String × String)) (events : List Event)
    (children : List Node) (h : Adds events children) :
    Makes (.opened tag :: givenEvents pairs ++ events ++ [.closed])
      ⟨tag, attributeTable pairs, children⟩ := by
  intro a
  have hopened : (Event.opened tag :: givenEvents pairs).foldl grow a =
      (givenEvents pairs).foldl grow ⟨.ofTag tag :: a.pending, a.root⟩ := rfl
  have hgiven := foldl_grow_givenEvents pairs (.ofTag tag) a.pending a.root
  have htable : addAttributes ∅ pairs = attributeTable pairs := addAttributes_eq_foldl ∅ pairs
  rw [List.foldl_append, List.foldl_append, hopened, hgiven, h]
  simp only [List.foldl_cons, List.foldl_nil, grow, close_cons, Element.ofTag,
    List.nil_append, htable]

end Assembly
end FrameUI.Markup
