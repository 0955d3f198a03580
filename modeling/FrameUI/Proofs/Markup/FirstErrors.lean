import FrameUI.Proofs.Markup.Construction
import FrameUI.Proofs.Tables

/-!
# The first error of a tree of builders

The nodes of a tree are built under validators of their own, so a lenient node may have strict
children. Which checks fail is known from the steps alone, and in which order they come: the tag
of a node, then its steps, where a child counts as the step that attaches it. Main statement:
`build_outcome_iff`, that the first of them is the error, and that without any the tree holds
what the steps have given.
-/

namespace FrameUI

/-- The error of a check, if it fails. -/
def Checked.failures {ε α : Type} (check : Checked ε α) : List ε :=
  match check.outcome with
  | .ok _ => []
  | .error e => [e]

namespace Markup

open Builder

/-! ### The checks that fail -/

mutual

/-- The errors of the checks that fail in a tree, each under the validator of its node. -/
def Blueprint.failures : Blueprint → List ValidationError
  | ⟨tag, v, steps⟩ => (v.tag tag).failures ++ BuildStep.failuresAll v tag steps

/-- An attribute that is not on the list of its tag is checked for its name only. -/
def BuildStep.failures (v : Validator) (tag : String) : BuildStep → List ValidationError
  | .give name value =>
    (v.attributeName tag name).failures ++
      if isAllowedAttribute tag name then (v.attributeValue name value).failures else []
  | .text run => (v.text run).failures
  | .child node => node.failures

def BuildStep.failuresAll (v : Validator) (tag : String) : List BuildStep → List ValidationError
  | [] => []
  | s :: ss => s.failures v tag ++ BuildStep.failuresAll v tag ss

end

/-! ### What the steps give -/

def BuildStep.given? : BuildStep → Option (String × String)
  | .give name value => some (name, value)
  | .text _ => none
  | .child _ => none

/-- The values given to attributes, in order. -/
def gives (steps : List BuildStep) : List (String × String) := steps.filterMap BuildStep.given?

/-- The values given to attributes that are not on the list of the tag, in order. -/
def unlisted (tag : String) (pairs : List (String × String)) : List String :=
  (pairs.filter fun pair => !isAllowedAttribute tag pair.1).map Prod.snd

/-- The value that an attribute should have: a listed one the last value given to it, and the
attribute of its own for the others all their values with spaces between them. -/
def finalValue? (tag : String) (pairs : List (String × String)) (name : String) : Option String :=
  if isAllowedAttribute tag name then Dict.lastOf? name pairs
  else if name = unknownAttribute ∧ unlisted tag pairs ≠ [] then
    some (" ".intercalate (unlisted tag pairs))
  else none

mutual

/-- A tree holds what the steps give and nothing else. -/
inductive Describes : Blueprint → Element → Prop where
  | node {tag : String} {v : Validator} {steps : List BuildStep} {attributes : Dict String}
      {children : List Node}
      (hattributes : ∀ name, attributes.find? name = finalValue? tag (gives steps) name)
      (hchildren : DescribesAll steps children) :
      Describes ⟨tag, v, steps⟩ ⟨tag, attributes, children⟩

/-- The children are the texts and the trees of the steps, in order. -/
inductive DescribesAll : List BuildStep → List Node → Prop where
  | nil : DescribesAll [] []
  | give {steps : List BuildStep} {nodes : List Node} (name value : String)
      (h : DescribesAll steps nodes) : DescribesAll (.give name value :: steps) nodes
  | text {steps : List BuildStep} {nodes : List Node} (run : String)
      (h : DescribesAll steps nodes) : DescribesAll (.text run :: steps) (.text run :: nodes)
  | child {steps : List BuildStep} {nodes : List Node} {p : Blueprint} {e : Element}
      (hchild : Describes p e) (h : DescribesAll steps nodes) :
      DescribesAll (.child p :: steps) (.element e :: nodes)

end

theorem DescribesAll.append {steps more : List BuildStep} {nodes others : List Node}
    (h : DescribesAll steps nodes) (hmore : DescribesAll more others) :
    DescribesAll (steps ++ more) (nodes ++ others) := by
  induction steps generalizing nodes with
  | nil =>
    cases h
    exact hmore
  | cons s steps ih =>
    cases h with
    | give name value h => exact .give name value (ih h)
    | text run h => exact .text run (ih h)
    | child hchild h => exact .child hchild (ih h)

mutual

/-- The steps leave nothing open. -/
theorem Describes.unique : (p : Blueprint) → (e e' : Element) → Describes p e →
    Describes p e' → e = e'
  | ⟨tag, v, steps⟩, e, e', h, h' => by
    obtain ⟨hattributes, hchildren⟩ := h
    obtain ⟨hattributes', hchildren'⟩ := h'
    congr 1
    · exact Dict.ext_find _ _ fun name => (hattributes name).trans (hattributes' name).symm
    · exact DescribesAll.unique steps _ _ hchildren hchildren'

theorem DescribesAll.unique : (steps : List BuildStep) → (nodes nodes' : List Node) →
    DescribesAll steps nodes → DescribesAll steps nodes' → nodes = nodes'
  | [], _, _, h, h' => by
    cases h
    cases h'
    rfl
  | .give _ _ :: steps, _, _, h, h' => by
    cases h with
    | give _ _ h =>
      cases h' with
      | give _ _ h' => exact DescribesAll.unique steps _ _ h h'
  | .text _ :: steps, _, _, h, h' => by
    cases h with
    | text _ h =>
      cases h' with
      | text _ h' => rw [DescribesAll.unique steps _ _ h h']
  | .child p :: steps, _, _, h, h' => by
    cases h with
    | child hp h =>
      cases h' with
      | child hp' h' => rw [Describes.unique p _ _ hp hp', DescribesAll.unique steps _ _ h h']

end

/-! ### One more attribute -/

theorem isAllowedAttribute_unknown (tag : String) :
    isAllowedAttribute tag unknownAttribute = false := by
  rw [isAllowedAttribute]
  cases Tag.ofName tag <;> decide

theorem gives_append (steps more : List BuildStep) :
    gives (steps ++ more) = gives steps ++ gives more := List.filterMap_append

theorem finalValue?_append_listed {tag name : String} (value : String)
    (pairs : List (String × String)) (hname : isAllowedAttribute tag name = true) (key : String) :
    finalValue? tag (pairs ++ [(name, value)]) key =
      if name = key then some value else finalValue? tag pairs key := by
  have hunlisted : unlisted tag (pairs ++ [(name, value)]) = unlisted tag pairs := by
    simp [unlisted, hname]
  simp only [finalValue?, hunlisted, Dict.lastOf?_append]
  by_cases hkey : name = key
  · rw [← hkey, if_pos hname, if_pos rfl]
    simp [Dict.lastOf?]
  · simp [Dict.lastOf?, hkey]

theorem finalValue?_append_unlisted {tag name : String} (value : String)
    (pairs : List (String × String)) (hname : isAllowedAttribute tag name = false) (key : String) :
    finalValue? tag (pairs ++ [(name, value)]) key =
      if unknownAttribute = key then
        some (match finalValue? tag pairs unknownAttribute with
          | some joined => s!"{joined} {value}"
          | none => value)
      else finalValue? tag pairs key := by
  have hunlisted : unlisted tag (pairs ++ [(name, value)]) = unlisted tag pairs ++ [value] := by
    simp [unlisted, hname]
  have hvalue : ∀ pairs, finalValue? tag pairs unknownAttribute =
      if unlisted tag pairs ≠ [] then some (" ".intercalate (unlisted tag pairs)) else none := by
    intro pairs
    simp [finalValue?, isAllowedAttribute_unknown]
  by_cases hkey : unknownAttribute = key
  · rw [← hkey, if_pos rfl, hvalue, hvalue, hunlisted, if_pos (by simp)]
    by_cases hempty : unlisted tag pairs = []
    · rw [hempty, if_neg (by simp), List.nil_append, String.intercalate_singleton]
    · rw [if_pos hempty, String.intercalate_append_of_ne_nil hempty (by simp),
        String.intercalate_singleton]
      rfl
  · rw [if_neg hkey]
    by_cases hallowed : isAllowedAttribute tag key = true
    · have hne : name ≠ key := by
        rintro rfl
        exact Bool.false_ne_true (hname.symm.trans hallowed)
      rw [finalValue?, finalValue?, if_pos hallowed, if_pos hallowed, Dict.lastOf?_append]
      simp [Dict.lastOf?, hne]
    · have hother : ∀ pairs, finalValue? tag pairs key = none := fun pairs => by
        rw [finalValue?, if_neg hallowed, if_neg fun h => hkey h.1.symm]
      rw [hother, hother]

theorem Describes.give_listed {tag name value : String} {v : Validator} {steps : List BuildStep}
    {e : Element} (h : Describes ⟨tag, v, steps⟩ e) (hname : isAllowedAttribute tag name = true) :
    Describes ⟨tag, v, steps ++ [.give name value]⟩ (e.withAttribute name value) := by
  obtain ⟨hattributes, hchildren⟩ := h
  refine .node (fun key => ?_) ?_
  · rw [Dict.find?_insert, hattributes, gives_append]
    exact (finalValue?_append_listed value _ hname key).symm
  · rw [← List.append_nil (Element.children _)]
    exact hchildren.append (.give name value .nil)

theorem Describes.give_unlisted {tag name value : String} {v : Validator}
    {steps : List BuildStep} {e : Element} (h : Describes ⟨tag, v, steps⟩ e)
    (hname : isAllowedAttribute tag name = false) :
    Describes ⟨tag, v, steps ++ [.give name value]⟩ (collect e value) := by
  obtain ⟨hattributes, hchildren⟩ := h
  rename_i attributes children
  have hcollect : collect ⟨tag, attributes, children⟩ value =
      Element.withAttribute ⟨tag, attributes, children⟩ unknownAttribute
        (match attributes.find? unknownAttribute with
          | some joined => s!"{joined} {value}"
          | none => value) := by
    rw [collect, Element.attribute?]
    cases attributes.find? unknownAttribute with
    | some joined => rfl
    | none => rfl
  rw [hcollect]
  refine .node (fun key => ?_) ?_
  · rw [Dict.find?_insert, hattributes, hattributes, gives_append]
    exact (finalValue?_append_unlisted value _ hname key).symm
  · rw [← List.append_nil (Element.children _)]
    exact hchildren.append (.give name value .nil)

/-! ### Builders and their steps -/

/-- An answer to a tree of steps: the first of the errors, or a tree as described when there is
none. -/
def Answers (p : Blueprint) (errors : List ValidationError) :
    Except ValidationError Element → Prop
  | .ok e => errors = [] ∧ Describes p e
  | .error error => errors.head? = some error

theorem build_extend (b : Builder) (check : Checked ValidationError Element) :
    (b.extend check).value.build = b.build.bind fun _ => check.outcome := by
  obtain ⟨element, validator, error⟩ := b
  rw [value_extend]
  cases error with
  | some error => rfl
  | none =>
    show Builder.build _ = check.outcome
    cases check.outcome with
    | ok e => rfl
    | error error => rfl

/-- A check comes after the checks before it, and counts only when they all have passed. -/
theorem Answers.extend {b : Builder} {check : Checked ValidationError Element} {p q : Blueprint}
    {errors more : List ValidationError} (h : Answers p errors b.build)
    (hcheck : Describes p b.element → Answers q more check.outcome) :
    Answers q (errors ++ more) (b.extend check).value.build := by
  rw [build_extend]
  obtain ⟨element, validator, error⟩ := b
  cases error with
  | some error =>
    have herror : errors.head? = some error := h
    show (errors ++ more).head? = some error
    rw [List.head?_append, herror]
    rfl
  | none =>
    obtain ⟨hnone, hdescribes⟩ : errors = [] ∧ Describes p element := h
    rw [hnone, List.nil_append]
    exact hcheck hdescribes

theorem answers_outcome {α : Type} {p : Blueprint} {more : List ValidationError}
    (check : Checked ValidationError α) (next : α → Checked ValidationError Element)
    (hnext : ∀ a, check.outcome = .ok a → Answers p more (next a).outcome) :
    Answers p (check.failures ++ more) (check >>= next).outcome := by
  rw [Checked.outcome_bind, Checked.failures]
  cases hcheck : check.outcome with
  | error error => rfl
  | ok a => exact hnext a hcheck

theorem attributeName_eq {v : Validator} {tag name : String} {listed : Bool}
    (h : (v.attributeName tag name).outcome = .ok listed) :
    listed = isAllowedAttribute tag name := by
  obtain ⟨_, _, hlisted⟩ := Checked.exists_of_outcome_bind h
  exact (Except.ok.inj hlisted).symm

section
variable {tag : String} {v : Validator} {steps : List BuildStep} {e : Element}

theorem answers_give (h : Describes ⟨tag, v, steps⟩ e) (name value : String) :
    Answers ⟨tag, v, steps ++ [.give name value]⟩ (BuildStep.failures v tag (.give name value))
      (Checked.outcome do
        if ← v.attributeName e.tag name then
          v.attributeValue name value
          pure (e.withAttribute name value)
        else pure (collect e value)) := by
  have htag : e.tag = tag := by
    cases h
    rfl
  rw [htag, BuildStep.failures]
  refine answers_outcome _ _ fun listed hlisted => ?_
  rw [attributeName_eq hlisted]
  cases hname : isAllowedAttribute tag name with
  | true =>
    rw [if_pos rfl, if_pos rfl, ← List.append_nil (Checked.failures _)]
    exact answers_outcome _ _ fun _ _ => ⟨rfl, h.give_listed hname⟩
  | false =>
    rw [if_neg Bool.false_ne_true, if_neg Bool.false_ne_true]
    exact ⟨rfl, h.give_unlisted hname⟩

theorem Describes.withNode (h : Describes ⟨tag, v, steps⟩ e) {s : BuildStep} {node : Node}
    (hs : s.given? = none) (hnode : DescribesAll [s] [node]) :
    Describes ⟨tag, v, steps ++ [s]⟩ { e with children := e.children ++ [node] } := by
  obtain ⟨hattributes, hchildren⟩ := h
  refine .node (fun name => ?_) (hchildren.append hnode)
  rw [hattributes, gives_append]
  simp [gives, hs]

theorem answers_text (h : Describes ⟨tag, v, steps⟩ e) (run : String) :
    Answers ⟨tag, v, steps ++ [.text run]⟩ (BuildStep.failures v tag (.text run))
      (Checked.outcome do
        v.text run
        pure (e.withText run)) := by
  rw [BuildStep.failures, ← List.append_nil (Checked.failures _)]
  exact answers_outcome _ _ fun _ _ => ⟨rfl, h.withNode rfl (.text run .nil)⟩

theorem answers_child (h : Describes ⟨tag, v, steps⟩ e) {p : Blueprint} {c : Builder}
    (hc : Answers p p.failures c.build) :
    Answers ⟨tag, v, steps ++ [.child p]⟩ (BuildStep.failures v tag (.child p))
      (Checked.outcome do
        let child ← ExceptT.mk (pure c.build)
        pure (e.withChild child)) := by
  rw [BuildStep.failures, Checked.outcome_bind]
  show Answers _ _ (c.build.bind fun child => .ok (e.withChild child))
  cases hbuild : c.build with
  | error error =>
    rw [hbuild] at hc
    exact hc
  | ok child =>
    rw [hbuild] at hc
    exact ⟨hc.1, h.withNode rfl (.child hc.2 .nil)⟩

end

theorem validator_new (v : Validator) (tag : String) : (new v tag).value.validator = v := by
  rw [value_new]
  cases (v.tag tag).outcome with
  | ok _ => rfl
  | error _ => rfl

theorem answers_new (v : Validator) (tag : String) :
    Answers ⟨tag, v, []⟩ (v.tag tag).failures (new v tag).value.build := by
  rw [value_new, Checked.failures]
  cases (v.tag tag).outcome with
  | ok _ =>
    refine ⟨rfl, .node (fun name => ?_) .nil⟩
    have hempty : (Dict.lastOf? name [] : Option String) = none := rfl
    have hnone : finalValue? tag [] name = none := by simp [finalValue?, unlisted, hempty]
    exact hnone.symm
  | error error => rfl

mutual

/-- A node is built to the first error of its checks, or to the tree of its steps. -/
theorem answers_construct : (p : Blueprint) → Answers p p.failures p.construct.value.build
  | ⟨tag, v, steps⟩ => by
    rw [Blueprint.construct, Logged.value_bind, Blueprint.failures]
    have hend := answers_takeAll steps (validator_new v tag) (answers_new v tag)
    rw [List.nil_append] at hend
    exact hend

/-- Every step adds its checks to those before it, and what it gives to the tree. -/
theorem answers_take {tag : String} {v : Validator} {steps : List BuildStep}
    {errors : List ValidationError} {b : Builder} : (s : BuildStep) → b.validator = v →
    Answers ⟨tag, v, steps⟩ errors b.build →
    Answers ⟨tag, v, steps ++ [s]⟩ (errors ++ s.failures v tag) (s.take b).value.build
  | .give name value, hv, h => h.extend fun hdescribes => hv ▸ answers_give hdescribes name value
  | .text run, hv, h => h.extend fun hdescribes => hv ▸ answers_text hdescribes run
  | .child p, _, h => h.extend fun hdescribes => answers_child hdescribes (answers_construct p)

theorem answers_takeAll {tag : String} {v : Validator} {steps : List BuildStep}
    {errors : List ValidationError} {b : Builder} : (more : List BuildStep) → b.validator = v →
    Answers ⟨tag, v, steps⟩ errors b.build →
    Answers ⟨tag, v, steps ++ more⟩ (errors ++ BuildStep.failuresAll v tag more)
      (BuildStep.takeAll b more).value.build
  | [], _, h => by
    rw [value_takeAll_nil, BuildStep.failuresAll, List.append_nil, List.append_nil]
    exact h
  | s :: more, hv, h => by
    have hnext := answers_takeAll more ((validator_take b s).trans hv) (answers_take s hv h)
    rw [List.append_assoc, List.append_assoc] at hnext
    rw [value_takeAll_cons, BuildStep.failuresAll]
    exact hnext

end

/-! ### After an error -/

theorem error_of_build {b : Builder} {error : ValidationError} (h : b.build = .error error) :
    b.error = some error := by
  obtain ⟨element, validator, held⟩ := b
  cases held with
  | some _ => exact congrArg some (Except.error.inj h)
  | none => cases h

theorem value_take_of_error {b : Builder} {error : ValidationError} (h : b.error = some error)
    (s : BuildStep) : (s.take b).value = b := by
  have hextend : ∀ check, (b.extend check).value = b := fun check => by
    rw [value_extend, h]
  cases s with
  | give name value => exact hextend _
  | text run => exact hextend _
  | child p => exact hextend _

/-- Once a check has failed, no step changes anything. -/
theorem value_takeAll_of_error {b : Builder} {error : ValidationError} (h : b.error = some error)
    (steps : List BuildStep) : (BuildStep.takeAll b steps).value = b := by
  induction steps with
  | nil => exact value_takeAll_nil b
  | cons s steps ih => rw [value_takeAll_cons, value_take_of_error h, ih]

theorem construct_append (p : Blueprint) (more : List BuildStep) :
    (Blueprint.mk p.tag p.validator (p.steps ++ more)).construct.value =
      (BuildStep.takeAll p.construct.value more).value := by
  obtain ⟨tag, v, steps⟩ := p
  rw [Blueprint.construct, Blueprint.construct, Logged.value_bind, Logged.value_bind,
    value_takeAll_append]

/-- A tree of steps is refused with the error of the first check that fails under the validator
of its node, and steps after that change nothing; without such a check it is built to the one
tree that holds what its steps give. -/
theorem build_outcome_iff (p : Blueprint) :
    (∀ error, p.build.outcome = .error error ↔ p.failures.head? = some error) ∧
      (p.failures = [] ∨ ∀ more,
        (Blueprint.mk p.tag p.validator (p.steps ++ more)).construct.value = p.construct.value) ∧
      ∀ t, p.build.outcome = .ok t ↔ p.failures = [] ∧ Describes p t := by
  rw [outcome_build]
  have hanswers := answers_construct p
  cases hbuild : p.construct.value.build with
  | ok e =>
    rw [hbuild] at hanswers
    obtain ⟨hnone, hdescribes⟩ := hanswers
    refine ⟨fun error => ⟨nofun, fun h => ?_⟩, Or.inl hnone, fun t => ⟨?_, fun h => ?_⟩⟩
    · rw [hnone] at h
      cases h
    · rintro ⟨⟩
      exact ⟨hnone, hdescribes⟩
    · rw [Describes.unique p e t hdescribes h.2]
  | error first =>
    rw [hbuild] at hanswers
    have hfirst : p.failures.head? = some first := hanswers
    refine ⟨fun error => ?_, Or.inr fun more => ?_, fun t => ⟨nofun, fun h => ?_⟩⟩
    · rw [hfirst]
      exact ⟨fun h => congrArg some (Except.error.inj h), fun h => congrArg _ (Option.some.inj h)⟩
    · rw [construct_append]
      exact value_takeAll_of_error (error_of_build hbuild) more
    · rw [h.1] at hfirst
      cases hfirst

/-- A lenient node with a strict child that has two failing checks. -/
example :
    (Blueprint.mk "Window" .lenient
      [.give unknownAttribute "a", .give "kind" "b",
        .child ⟨"Panel", .strict, [.give "x" "c"]⟩]).failures.map ValidationError.context =
      ["tag=Panel", "tag=Panel attribute=x"] := by decide +kernel

end Markup
end FrameUI
