import FrameUI.Markup.Builder
import FrameUI.Proofs.Markup.Admissible

/-!
# Building a tree again

Every tree can be given to a builder node by node: its tag, its attributes by name, then its
children in order. Main statement: the strict builder makes an admissible tree again, so it
makes every tree again that the strict parser accepts.
-/

namespace FrameUI.Markup

/-! ### The steps of a tree -/

mutual

/-- The steps that make an element under a validator. -/
def Element.blueprint (v : Validator) : Element → Blueprint
  | ⟨tag, attributes, children⟩ =>
    ⟨tag, v, attributes.entries.map (fun entry => .give entry.1 entry.2) ++ Node.steps v children⟩

def Node.steps (v : Validator) : List Node → List BuildStep
  | [] => []
  | .element e :: nodes => .child (e.blueprint v) :: Node.steps v nodes
  | .text run :: nodes => .text run :: Node.steps v nodes

end

/-! ### Steps of a strict builder -/

namespace Builder

/-- A strict builder at work, without an error so far. -/
def holding (e : Element) : Builder := ⟨e, .strict, none⟩

@[simp] theorem element_holding (e : Element) : (holding e).element = e := rfl

@[simp] theorem validator_holding (e : Element) : (holding e).validator = .strict := rfl

theorem value_new (v : Validator) (tag : String) :
    (new v tag).value =
      match (v.tag tag).outcome with
      | .ok _ => ⟨.ofTag tag, v, none⟩
      | .error error => ⟨.ofTag tag, v, some error⟩ := by
  show (match (v.tag tag).outcome with
    | .ok _ => (pure ⟨.ofTag tag, v, none⟩ : Logged Builder)
    | .error error => pure ⟨.ofTag tag, v, some error⟩).value = _
  cases (v.tag tag).outcome with
  | ok _ => rfl
  | error error => rfl

theorem value_extend (b : Builder) (check : Checked ValidationError Element) :
    (b.extend check).value =
      match b.error with
      | some _ => b
      | none =>
        match check.outcome with
        | .ok e => { b with element := e }
        | .error error => { b with error := some error } := by
  obtain ⟨element, validator, error⟩ := b
  cases error with
  | some _ => rfl
  | none =>
    show (match check.outcome with
      | .ok e => (pure ⟨e, validator, none⟩ : Logged Builder)
      | .error error => pure ⟨element, validator, some error⟩).value = _
    cases check.outcome with
    | ok e => rfl
    | error error => rfl

theorem value_new_strict (tag : String) (h : (Tag.ofName tag).isKnown = true) :
    (new .strict tag).value = holding (.ofTag tag) := by
  rw [value_new, (Validator.outcome_tag_strict_iff tag _).mpr ⟨h, rfl⟩]
  rfl

theorem value_extend_holding (e e' : Element) (check : Checked ValidationError Element)
    (h : check.outcome = .ok e') : ((holding e).extend check).value = holding e' := by
  rw [value_extend, h]
  rfl

theorem value_give_holding (e : Element) (name value : String)
    (hname : isAllowedAttribute e.tag name = true) (hvalue : fits name value = true) :
    ((holding e).give name value).value = holding (e.withAttribute name value) := by
  apply value_extend_holding
  have hlisted := (Validator.outcome_attributeName_strict_iff e.tag name true).mpr ⟨hname, rfl⟩
  have hfits := (Validator.outcome_attributeValue_strict_iff name value).mpr hvalue
  rw [validator_holding, element_holding, Checked.outcome_bind_of_ok _ _ true hlisted,
    if_pos rfl, Checked.outcome_bind_of_ok _ _ () hfits]
  rfl

theorem value_text_holding (e : Element) (run : String) (h : isDangerous run.toList = false) :
    ((holding e).text run).value = holding (e.withText run) := by
  apply value_extend_holding
  have hharmless := (Validator.outcome_text_strict_iff run).mpr h
  rw [validator_holding, element_holding, Checked.outcome_bind_of_ok _ _ () hharmless]
  rfl

theorem value_child_holding (e c : Element) :
    ((holding e).child (holding c)).value = holding (e.withChild c) :=
  value_extend_holding e _ _ rfl

end Builder

open Builder

theorem value_takeAll_nil (b : Builder) : (BuildStep.takeAll b []).value = b := by
  rw [BuildStep.takeAll, Logged.value_pure]

theorem value_takeAll_cons (b : Builder) (s : BuildStep) (ss : List BuildStep) :
    (BuildStep.takeAll b (s :: ss)).value = (BuildStep.takeAll (s.take b).value ss).value := by
  rw [BuildStep.takeAll, Logged.value_bind]

theorem value_takeAll_append (b : Builder) (ss more : List BuildStep) :
    (BuildStep.takeAll b (ss ++ more)).value =
      (BuildStep.takeAll (BuildStep.takeAll b ss).value more).value := by
  induction ss generalizing b with
  | nil => rw [List.nil_append, value_takeAll_nil]
  | cons s ss ih => rw [List.cons_append, value_takeAll_cons, value_takeAll_cons, ih]

/-- Attributes that an element may have are inserted from first to last. -/
theorem value_takeAll_gives (entries : List (String × String)) (e : Element)
    (h : ∀ entry ∈ entries, admitsAttribute e.tag entry = true) :
    (BuildStep.takeAll (holding e) (entries.map fun entry => .give entry.1 entry.2)).value =
      holding ⟨e.tag, entries.foldl (fun acc entry => acc.insert entry.1 entry.2) e.attributes,
        e.children⟩ := by
  induction entries generalizing e with
  | nil =>
    cases e
    exact value_takeAll_nil _
  | cons entry entries ih =>
    obtain ⟨hentry, hentries⟩ := List.forall_mem_cons.mp h
    obtain ⟨hname, hvalue⟩ := Bool.and_eq_true_iff.mp hentry
    rw [List.map_cons, value_takeAll_cons, BuildStep.take,
      value_give_holding e entry.1 entry.2 hname hvalue]
    exact ih (e.withAttribute entry.1 entry.2) hentries

/-! ### Whole trees -/

mutual

/-- The strict builder makes an admissible tree from its steps. -/
theorem value_construct_blueprint : (e : Element) → e.admissible = true →
    (e.blueprint .strict).construct.value = holding e
  | ⟨tag, attributes, children⟩, h => by
    obtain ⟨htag, hentries, hchildren⟩ := (Element.admissible_iff _).mp h
    have htable : attributes.entries.foldl (fun acc entry => acc.insert entry.1 entry.2) ∅ =
        attributes := Dict.ofList_entries attributes
    rw [Element.blueprint, Blueprint.construct, Logged.value_bind, value_new_strict tag htag,
      value_takeAll_append, value_takeAll_gives attributes.entries (.ofTag tag) hentries,
      value_takeAll_steps children hchildren]
    simp only [Element.ofTag, htable, List.nil_append]

theorem value_takeAll_steps : (nodes : List Node) → Node.allAdmissible nodes = true →
    ∀ e : Element, (BuildStep.takeAll (holding e) (Node.steps .strict nodes)).value =
      holding { e with children := e.children ++ nodes }
  | [], _, e => by
    cases e
    rw [List.append_nil, Node.steps, value_takeAll_nil]
  | .element c :: nodes, h, e => by
    simp only [Node.allAdmissible, Bool.and_eq_true] at h
    rw [Node.steps, value_takeAll_cons, BuildStep.take, Logged.value_bind,
      value_construct_blueprint c h.1, value_child_holding, value_takeAll_steps nodes h.2]
    simp only [Element.withChild, List.append_assoc, List.singleton_append]
  | .text run :: nodes, h, e => by
    simp only [Node.allAdmissible, Bool.and_eq_true, Bool.not_eq_true'] at h
    rw [Node.steps, value_takeAll_cons, BuildStep.take, value_text_holding e run h.1,
      value_takeAll_steps nodes h.2]
    simp only [Element.withText, List.append_assoc, List.singleton_append]

end

theorem outcome_build (p : Blueprint) : p.build.outcome = p.construct.value.build := by
  rw [Blueprint.build, Checked.outcome_bind, Checked.outcome_lift]
  rfl

/-- What the strict parser accepts, the strict builder makes again. -/
theorem build_blueprint_of_parse_strict (source : String) (root : Element)
    (h : (parse .strict source).outcome = .ok root) :
    (root.blueprint .strict).build.outcome = .ok root := by
  rw [outcome_build, value_construct_blueprint root (admissible_of_parse_strict h)]
  rfl

/-- A document with entities directly behind a numeral and a handler, and in a run. -/
def escapedText : String :=
  "<App id=\"a&quot;b\"><Button onClick=\"save\" width=\"10&amp;\">1 &lt; 2</Button></App>"

def escapedTree : Element :=
  ⟨rootName, .ofList [("id", "a\"b")],
    [.element ⟨"Button", .ofList [("onClick", "save"), ("width", "10&")], [.text "1 < 2"]⟩]⟩

theorem build_blueprint_escapedTree :
    (parse .strict escapedText).outcome = .ok escapedTree ∧
      (escapedTree.blueprint .strict).build.outcome = .ok escapedTree := by
  have hparse : (parse .strict escapedText).outcome = .ok escapedTree :=
    Checked.eq_ok_of_toOption _ _ (by decide +kernel)
  exact ⟨hparse, build_blueprint_of_parse_strict escapedText escapedTree hparse⟩

end FrameUI.Markup
