import FrameUI.Proofs.Markup.Decoding
import FrameUI.Proofs.Markup.Warnings

/-!
# Trees that pass every check

A tree is admissible when the strict validator has nothing to say about its tags, attributes
and runs. Main statement: the trees that the strict parser accepts are admissible, although the
parser looks at their values and runs before the entities in them are decoded.
-/

namespace FrameUI

/-! ### Strict checks -/

/-- Whether the value of an attribute is what it has to be. -/
def fits (name value : String) : Bool := (expectedValue? name value).all fun expected => expected.1

namespace Validator

theorem outcome_judge_strict_iff (passed : Bool) (code : ValidationCode)
    (detail context : String) :
    Checked.outcome (strict.judge passed code detail context) = .ok () ↔ passed = true := by
  cases passed with
  | true => exact ⟨fun _ => rfl, fun _ => rfl⟩
  | false => exact ⟨nofun, nofun⟩

theorem outcome_tag_strict_iff (name : String) (tag : Markup.Tag) :
    Checked.outcome (strict.tag name) = .ok tag ↔
      (Markup.Tag.ofName name).isKnown = true ∧ tag = .ofName name := by
  unfold Validator.tag
  constructor
  · intro h
    obtain ⟨_, hjudge, hrest⟩ := Checked.exists_of_outcome_bind h
    cases hrest
    exact ⟨(outcome_judge_strict_iff _ _ _ _).mp hjudge, rfl⟩
  · rintro ⟨hknown, rfl⟩
    rw [Checked.outcome_bind_of_ok _ _ () ((outcome_judge_strict_iff _ _ _ _).mpr hknown)]
    rfl

theorem outcome_attributeName_strict_iff (tag name : String) (listed : Bool) :
    Checked.outcome (strict.attributeName tag name) = .ok listed ↔
      isAllowedAttribute tag name = true ∧ listed = true := by
  unfold attributeName
  constructor
  · intro h
    obtain ⟨_, hjudge, hrest⟩ := Checked.exists_of_outcome_bind h
    have hallowed := (outcome_judge_strict_iff _ _ _ _).mp hjudge
    cases hrest
    exact ⟨hallowed, hallowed⟩
  · rintro ⟨hallowed, rfl⟩
    rw [Checked.outcome_bind_of_ok _ _ () ((outcome_judge_strict_iff _ _ _ _).mpr hallowed),
      hallowed]
    rfl

theorem outcome_attributeValue_strict_iff (name value : String) :
    Checked.outcome (strict.attributeValue name value) = .ok () ↔ fits name value = true := by
  unfold attributeValue fits
  cases expectedValue? name value with
  | none => exact ⟨fun _ => rfl, fun _ => rfl⟩
  | some expected => exact outcome_judge_strict_iff _ _ _ _

theorem outcome_text_strict_iff (run : String) :
    Checked.outcome (strict.text run) = .ok () ↔ isDangerous run.toList = false := by
  unfold text
  rw [outcome_judge_strict_iff, Bool.not_eq_true']

end Validator

namespace Markup

theorem fits_unescape (name raw : String) : fits name (Entity.unescape raw) = fits name raw := by
  rw [fits, fits, expectedValue?_unescape]

/-! ### Admissible trees -/

/-- Whether an element with a tag may have an attribute with a value. -/
def admitsAttribute (tag : String) (entry : String × String) : Bool :=
  isAllowedAttribute tag entry.1 && fits entry.1 entry.2

mutual

/-- Whether every tag of a tree is known, every attribute is listed and fits, and no run is
dangerous. -/
def Element.admissible : Element → Bool
  | ⟨tag, attributes, children⟩ =>
    (Tag.ofName tag).isKnown && attributes.entries.all (admitsAttribute tag) &&
      Node.allAdmissible children

def Node.allAdmissible : List Node → Bool
  | [] => true
  | .element e :: nodes => e.admissible && Node.allAdmissible nodes
  | .text s :: nodes => !isDangerous s.toList && Node.allAdmissible nodes

end

theorem allAdmissible_append (nodes more : List Node) :
    Node.allAdmissible (nodes ++ more) = (Node.allAdmissible nodes && Node.allAdmissible more) := by
  induction nodes with
  | nil => rfl
  | cons n nodes ih =>
    cases n with
    | element e => simp only [List.cons_append, Node.allAdmissible, ih, Bool.and_assoc]
    | text s => simp only [List.cons_append, Node.allAdmissible, ih, Bool.and_assoc]

namespace Element

theorem admissible_iff (e : Element) :
    e.admissible = true ↔ (Tag.ofName e.tag).isKnown = true ∧
      (∀ entry ∈ e.attributes.entries, admitsAttribute e.tag entry = true) ∧
        Node.allAdmissible e.children = true := by
  cases e
  rw [admissible, Bool.and_eq_true, Bool.and_eq_true, List.all_eq_true, and_assoc]

theorem admissible_ofTag (tag : String) (h : (Tag.ofName tag).isKnown = true) :
    (ofTag tag).admissible = true :=
  (admissible_iff _).mpr ⟨h, fun _ hentry => absurd hentry List.not_mem_nil, rfl⟩

variable {e : Element}

theorem admissible_withAttribute (h : e.admissible = true) (name value : String)
    (hname : isAllowedAttribute e.tag name = true) (hvalue : fits name value = true) :
    (e.withAttribute name value).admissible = true := by
  obtain ⟨htag, hentries, hchildren⟩ := (admissible_iff e).mp h
  refine (admissible_iff _).mpr ⟨htag, ?_, hchildren⟩
  intro entry hentry
  rcases Dict.mem_entries_insert hentry with rfl | hentry
  · show (isAllowedAttribute e.tag name && fits name value) = true
    rw [hname, hvalue]
    rfl
  · exact hentries entry hentry

theorem admissible_withChildren (h : e.admissible = true) (nodes : List Node)
    (hnodes : Node.allAdmissible nodes = true) :
    Element.admissible { e with children := e.children ++ nodes } = true := by
  obtain ⟨htag, hentries, hchildren⟩ := (admissible_iff e).mp h
  refine (admissible_iff _).mpr ⟨htag, hentries, ?_⟩
  show Node.allAdmissible (e.children ++ nodes) = true
  rw [allAdmissible_append, hchildren, hnodes]
  rfl

theorem admissible_withText (h : e.admissible = true) (run : String)
    (hrun : isDangerous run.toList = false) : (e.withText run).admissible = true :=
  admissible_withChildren h [.text run] (by rw [Node.allAdmissible, hrun]; rfl)

theorem admissible_withChild (h : e.admissible = true) (child : Element)
    (hchild : child.admissible = true) : (e.withChild child).admissible = true :=
  admissible_withChildren h [.element child] (by rw [Node.allAdmissible, hchild]; rfl)

end Element

/-! ### Strict assembling -/

namespace Assembly

/-- Whether every element of a tree under construction is admissible so far. -/
structure Admissible (a : Assembly) : Prop where
  pending : ∀ e ∈ a.pending, e.admissible = true
  root : ∀ e ∈ a.root, e.admissible = true

variable {a b : Assembly}

theorem Admissible.attach_text (h : a.Admissible) (run : String)
    (hrun : isDangerous run.toList = false) : (a.attach (.text run)).Admissible := by
  obtain ⟨pending, root⟩ := a
  cases pending with
  | nil => exact h
  | cons e outer =>
    obtain ⟨he, houter⟩ := List.forall_mem_cons.mp h.pending
    exact ⟨List.forall_mem_cons.mpr ⟨Element.admissible_withText he run hrun, houter⟩, h.root⟩

theorem Admissible.close (h : a.Admissible) : a.close.Admissible := by
  obtain ⟨pending, root⟩ := a
  match pending with
  | [] => exact h
  | [e] =>
    refine ⟨nofun, ?_⟩
    rintro _ ⟨⟩
    exact h.pending e List.mem_cons_self
  | e :: parent :: outer =>
    obtain ⟨he, hrest⟩ := List.forall_mem_cons.mp h.pending
    obtain ⟨hparent, houter⟩ := List.forall_mem_cons.mp hrest
    have hwith := Element.admissible_withChild hparent e he
    exact ⟨List.forall_mem_cons.mpr ⟨hwith, houter⟩, h.root⟩

/-- Taking in one event strictly keeps the tree admissible: what the event brings has passed
its checks as it stands in the source, so it passes them decoded. -/
theorem Admissible.take (h : a.Admissible) (event : Event)
    (htake : (a.take .strict event).outcome = .ok b) : b.Admissible := by
  cases event with
  | opened tag =>
    obtain ⟨_, htag, hrest⟩ := Checked.exists_of_outcome_bind htake
    have hknown := ((Validator.outcome_tag_strict_iff _ _).mp htag).1
    cases hrest
    exact ⟨List.forall_mem_cons.mpr ⟨Element.admissible_ofTag tag hknown, h.pending⟩, h.root⟩
  | given name raw =>
    obtain ⟨pending, root⟩ := a
    cases pending with
    | nil =>
      cases htake
      exact h
    | cons e outer =>
      obtain ⟨_, hname, hrest⟩ := Checked.exists_of_outcome_bind htake
      obtain ⟨_, hvalue, hrest⟩ := Checked.exists_of_outcome_bind hrest
      have hallowed := ((Validator.outcome_attributeName_strict_iff _ _ _).mp hname).1
      have hfits := (Validator.outcome_attributeValue_strict_iff _ _).mp hvalue
      rw [← fits_unescape] at hfits
      cases hrest
      obtain ⟨he, houter⟩ := List.forall_mem_cons.mp h.pending
      have hgiven := Element.admissible_withAttribute he name _ hallowed hfits
      exact ⟨List.forall_mem_cons.mpr ⟨hgiven, houter⟩, h.root⟩
  | run raw =>
    obtain ⟨_, hcheck, hrest⟩ := Checked.exists_of_outcome_bind htake
    have hraw := (Validator.outcome_text_strict_iff raw).mp hcheck
    split at hrest
    · cases hrest
      exact h
    · cases hrest
      rw [← isDangerous_unescape] at hraw
      exact h.attach_text _ hraw
  | closed =>
    cases htake
    exact h.close

theorem Admissible.takeAll (events : List Event) (h : a.Admissible)
    (htake : (a.takeAll .strict events).outcome = .ok b) : b.Admissible := by
  induction events generalizing a with
  | nil =>
    cases htake
    exact h
  | cons event events ih =>
    obtain ⟨next, hnext, hrest⟩ := Checked.exists_of_outcome_bind htake
    exact ih (h.take event hnext) hrest

end Assembly

/-! ### Strict parsing -/

/-- A strict parse that succeeds has taken in every event of the source, and its answer is the
root that they leave. -/
theorem exists_takeAll_of_parse_strict {source : String} {root : Element}
    (h : (parse .strict source).outcome = .ok root) :
    ∃ assembly, (Assembly.empty.takeAll .strict
        (readFrom .start (Text.trim source.toList)).events).outcome = .ok assembly ∧
      root = assembly.root.getD default ∧
        (readFrom .start (Text.trim source.toList)).failure = none := by
  rw [outcome_parse] at h
  cases htake : (Assembly.empty.takeAll .strict
      (readFrom .start (Text.trim source.toList)).events).outcome with
  | error e =>
    rw [htake] at h
    cases h
  | ok assembly =>
    rw [htake] at h
    cases hfailure : (readFrom .start (Text.trim source.toList)).failure with
    | some f =>
      rw [hfailure] at h
      cases h
    | none =>
      rw [hfailure] at h
      cases h
      exact ⟨assembly, rfl, rfl, rfl⟩

/-- What the strict parser accepts, the lenient one reads as the same tree. -/
theorem outcome_parse_lenient_of_strict {source : String} {root : Element}
    (h : (parse .strict source).outcome = .ok root) :
    (parse .lenient source).outcome = .ok root := by
  obtain ⟨assembly, htake, rfl, hfailure⟩ := exists_takeAll_of_parse_strict h
  obtain ⟨failed, hchecks⟩ := Assembly.checks_takeAll Assembly.empty
    (readFrom .start (Text.trim source.toList)).events
  rw [hchecks.strict] at htake
  cases failed with
  | cons e failed => cases htake
  | nil =>
    cases htake
    rw [outcome_parse_lenient, hfailure]

theorem wellNamed_of_parse (v : Validator) (source : String) (root : Element)
    (h : (parse v source).outcome = .ok root) : root.wellNamed = true := by
  have hlenient : (parse .lenient source).outcome = .ok root := by
    obtain ⟨mode⟩ := v
    cases mode with
    | lenient => exact h
    | strict => exact outcome_parse_lenient_of_strict h
  obtain ⟨helement, _, _⟩ := documentText_of_outcome source root hlenient
  exact (wellNamed_of_elementText _ root helement).1

theorem admissible_of_parse_strict {source : String} {root : Element}
    (h : (parse .strict source).outcome = .ok root) : root.admissible = true := by
  have hname := (documentText_of_outcome source root (outcome_parse_lenient_of_strict h)).name
  obtain ⟨assembly, htake, rfl, _⟩ := exists_takeAll_of_parse_strict h
  have hempty : Assembly.empty.Admissible := ⟨nofun, nofun⟩
  have hadmissible := hempty.takeAll _ htake
  cases hroot : assembly.root with
  | some e => exact hadmissible.root e hroot
  | none =>
    -- a reading without failure leaves a root, so the default is never taken
    rw [hroot] at hname
    exact absurd hname (by decide)

/-! ### Trees of harmless runs -/

namespace Element

/-- The texts among the children, in order. -/
def runs (e : Element) : List String := e.children.filterMap Node.text?

/-- Whether an element is a tree or stands somewhere in it. -/
inductive Within : Element → Element → Prop
  | self (e : Element) : Within e e
  | child (e c root : Element) : c ∈ root.elements → Within e c → Within e root

/-- Whether no run of a tree mentions a dangerous protocol. -/
def Harmless (root : Element) : Prop :=
  ∀ e, Within e root → ∀ run ∈ e.runs, isDangerous run.toList = false

theorem harmless_iff (e : Element) :
    e.Harmless ↔
      (∀ run ∈ e.runs, isDangerous run.toList = false) ∧ ∀ c ∈ e.elements, c.Harmless := by
  constructor
  · intro h
    exact ⟨h e (.self e), fun c hc d hd => h d (.child d c e hc hd)⟩
  · rintro ⟨hruns, helements⟩ d hd
    cases hd with
    | self => exact hruns
    | child c _ hc hd => exact helements c hc d hd

end Element

theorem allAdmissible_iff (nodes : List Node) :
    Node.allAdmissible nodes = true ↔
      (∀ run ∈ nodes.filterMap Node.text?, isDangerous run.toList = false) ∧
        ∀ c ∈ nodes.filterMap Node.element?, c.admissible = true := by
  induction nodes with
  | nil => exact ⟨fun _ => ⟨nofun, nofun⟩, fun _ => rfl⟩
  | cons n nodes ih =>
    cases n with
    | element e =>
      simp only [Node.allAdmissible, Bool.and_eq_true, ih, List.filterMap_cons, Node.text?,
        Node.element?, List.forall_mem_cons]
      exact and_left_comm
    | text s =>
      simp only [Node.allAdmissible, Bool.and_eq_true, Bool.not_eq_true', ih,
        List.filterMap_cons, Node.text?, Node.element?, List.forall_mem_cons]
      exact and_assoc.symm

theorem admissible_of_within {e root : Element} (hwithin : Element.Within e root)
    (h : root.admissible = true) : e.admissible = true := by
  induction hwithin with
  | self => exact h
  | child c root hc _ ih =>
    have hchildren := ((Element.admissible_iff root).mp h).2.2
    exact ih (((allAdmissible_iff _).mp hchildren).2 c hc)

theorem harmless_of_admissible (root : Element) (h : root.admissible = true) :
    root.Harmless := by
  intro e he
  have hchildren := ((Element.admissible_iff e).mp (admissible_of_within he h)).2.2
  exact ((allAdmissible_iff _).mp hchildren).1

/-- No run of a tree that the strict parser accepts is dangerous, decoded as it is. -/
theorem harmless_of_parse_strict (source : String) (root : Element)
    (h : (parse .strict source).outcome = .ok root) : root.Harmless :=
  harmless_of_admissible root (admissible_of_parse_strict h)

end Markup
end FrameUI
