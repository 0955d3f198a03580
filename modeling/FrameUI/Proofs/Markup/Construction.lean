import FrameUI.Proofs.Markup.Acceptance
import FrameUI.Proofs.Markup.Joining
import FrameUI.Proofs.Markup.Rebuilding

/-!
# What a strict builder makes

A strict builder checks the value of each attribute and each run by itself, so it makes
admissible trees. The parser sees neighbouring runs as one, which nobody has checked. Main
statement: what a strict builder makes is written as a document that the strict parser accepts
exactly when no joined run mentions a dangerous protocol, and none does where no two runs are
neighbours.
-/

namespace FrameUI.Markup

/-! ### Blueprints -/

mutual

/-- Whether every node of a blueprint is under the strict validator. -/
def Blueprint.allStrict : Blueprint → Bool
  | ⟨_, v, steps⟩ => v.isStrict && BuildStep.allStrict steps

def BuildStep.allStrict : List BuildStep → Bool
  | [] => true
  | .give _ _ :: steps => BuildStep.allStrict steps
  | .text _ :: steps => BuildStep.allStrict steps
  | .child p :: steps => p.allStrict && BuildStep.allStrict steps

end

mutual

/-- How many levels of nodes a blueprint has, its own included. -/
def Blueprint.depth : Blueprint → Nat
  | ⟨_, _, steps⟩ => 1 + BuildStep.depthAll steps

def BuildStep.depthAll : List BuildStep → Nat
  | [] => 0
  | .give _ _ :: steps => BuildStep.depthAll steps
  | .text _ :: steps => BuildStep.depthAll steps
  | .child p :: steps => max p.depth (BuildStep.depthAll steps)

end

/-! ### Builders without an error -/

namespace Builder

variable {b : Builder} {e : Element}

theorem eq_holding_of_build (hstrict : b.validator = .strict) (h : b.build = .ok e) :
    b = holding e := by
  obtain ⟨element, validator, error⟩ := b
  cases error with
  | some _ => cases h
  | none =>
    cases h
    cases hstrict
    rfl

theorem validator_extend (b : Builder) (check : Checked ValidationError Element) :
    (b.extend check).value.validator = b.validator := by
  rw [value_extend]
  cases b.error with
  | some _ => rfl
  | none =>
    cases check.outcome with
    | ok e => rfl
    | error error => rfl

/-- A check that leaves no error has passed, and none had failed before. -/
theorem of_build_extend {check : Checked ValidationError Element}
    (h : (b.extend check).value.build = .ok e) :
    b.build = .ok b.element ∧ check.outcome = .ok e := by
  obtain ⟨element, validator, error⟩ := b
  rw [value_extend] at h
  cases error with
  | some _ => cases h
  | none =>
    cases hcheck : check.outcome with
    | ok e' =>
      rw [hcheck] at h
      cases h
      exact ⟨rfl, rfl⟩
    | error error =>
      rw [hcheck] at h
      cases h

end Builder

open Builder

theorem validator_take (b : Builder) (s : BuildStep) :
    (s.take b).value.validator = b.validator := by
  cases s with
  | give name value =>
    rw [BuildStep.take]
    exact validator_extend b _
  | text run =>
    rw [BuildStep.take]
    exact validator_extend b _
  | child p =>
    rw [BuildStep.take, Logged.value_bind]
    exact validator_extend b _

/-! ### Steps that leave no error -/

/-- How a step changes what a builder holds: the result is admissible if that was, carries the
same tag, and has as many levels below it as what was there and the step have. -/
structure Extends (e e' : Element) (levels : Nat) : Prop where
  admissible : e.admissible = true → e'.admissible = true
  tag : e'.tag = e.tag
  depth : Node.depthAll e'.children = max (Node.depthAll e.children) levels

theorem Extends.trans {e e' e'' : Element} {m n : Nat} (h : Extends e e' m)
    (h' : Extends e' e'' n) : Extends e e'' (max m n) where
  admissible he := h'.admissible (h.admissible he)
  tag := h'.tag.trans h.tag
  depth := by rw [h'.depth, h.depth, Nat.max_assoc]

theorem depthAll_append (nodes more : List Node) :
    Node.depthAll (nodes ++ more) = max (Node.depthAll nodes) (Node.depthAll more) := by
  induction nodes with
  | nil => rw [List.nil_append, Node.depthAll, Nat.zero_max]
  | cons n nodes ih => rw [List.cons_append, depthAll_cons, depthAll_cons, ih, Nat.max_assoc]

theorem extends_refl (e : Element) : Extends e e 0 :=
  ⟨id, rfl, (Nat.max_zero _).symm⟩

theorem extends_withAttribute (e : Element) (name value : String)
    (hname : isAllowedAttribute e.tag name = true) (hvalue : fits name value = true) :
    Extends e (e.withAttribute name value) 0 where
  admissible h := Element.admissible_withAttribute h name value hname hvalue
  tag := rfl
  depth := (Nat.max_zero _).symm

theorem extends_withText (e : Element) (run : String) (hrun : isDangerous run.toList = false) :
    Extends e (e.withText run) 0 where
  admissible h := Element.admissible_withText h run hrun
  tag := rfl
  depth := by
    rw [Element.withText, depthAll_append, depthAll_cons, depth_text, Node.depthAll]
    rfl

theorem extends_withChild (e c : Element) (hc : c.admissible = true) :
    Extends e (e.withChild c) c.depth where
  admissible h := Element.admissible_withChild h c hc
  tag := rfl
  depth := by
    rw [Element.withChild, depthAll_append, depthAll_cons, Node.depth, Node.depthAll, Nat.max_zero]

/-- An attribute that a strict builder takes without an error is listed and fits. -/
theorem extends_of_give {e e' : Element} {name value : String}
    (h : ((holding e).give name value).value.build = .ok e') : Extends e e' 0 := by
  obtain ⟨listed, hname, hrest⟩ := Checked.exists_of_outcome_bind (of_build_extend h).2
  obtain ⟨hallowed, rfl⟩ := (Validator.outcome_attributeName_strict_iff _ _ _).mp hname
  rw [if_pos rfl] at hrest
  obtain ⟨_, hvalue, hrest⟩ := Checked.exists_of_outcome_bind hrest
  have hfits := (Validator.outcome_attributeValue_strict_iff _ _).mp hvalue
  cases hrest
  exact extends_withAttribute e name value hallowed hfits

theorem extends_of_text {e e' : Element} {run : String}
    (h : ((holding e).text run).value.build = .ok e') : Extends e e' 0 := by
  obtain ⟨_, hcheck, hrest⟩ := Checked.exists_of_outcome_bind (of_build_extend h).2
  have hharmless := (Validator.outcome_text_strict_iff run).mp hcheck
  cases hrest
  exact extends_withText e run hharmless

theorem exists_of_child {e e' : Element} {c : Builder}
    (h : ((holding e).child c).value.build = .ok e') :
    ∃ child, c.build = .ok child ∧ e' = e.withChild child := by
  obtain ⟨child, hchild, hrest⟩ := Checked.exists_of_outcome_bind (of_build_extend h).2
  cases hrest
  exact ⟨child, hchild, rfl⟩

/-- A builder without an error after a step had none before it. -/
theorem build_of_take {b : Builder} {e : Element} (s : BuildStep)
    (h : (s.take b).value.build = .ok e) : b.build = .ok b.element := by
  cases s with
  | give name value =>
    rw [BuildStep.take] at h
    exact (of_build_extend h).1
  | text run =>
    rw [BuildStep.take] at h
    exact (of_build_extend h).1
  | child p =>
    rw [BuildStep.take, Logged.value_bind] at h
    exact (of_build_extend h).1

theorem build_of_takeAll {b : Builder} {e : Element} (ss : List BuildStep)
    (h : (BuildStep.takeAll b ss).value.build = .ok e) : b.build = .ok b.element := by
  induction ss generalizing b with
  | nil =>
    rw [value_takeAll_nil] at h
    obtain ⟨element, validator, error⟩ := b
    cases error with
    | some _ => cases h
    | none => rfl
  | cons s ss ih =>
    rw [value_takeAll_cons] at h
    exact build_of_take s (ih h)

/-- Steps that leave no error in the end leave none after the first of them. -/
theorem take_of_takeAll_cons {e e' : Element} (s : BuildStep) (ss : List BuildStep)
    (h : (BuildStep.takeAll (holding e) (s :: ss)).value.build = .ok e') :
    ∃ next, (s.take (holding e)).value = holding next ∧
      (BuildStep.takeAll (holding next) ss).value.build = .ok e' := by
  rw [value_takeAll_cons] at h
  have hnext := eq_holding_of_build (validator_take (holding e) s) (build_of_takeAll ss h)
  rw [hnext] at h
  exact ⟨_, hnext, h⟩

/-! ### Whole blueprints -/

mutual

/-- What a strict blueprint makes is admissible, with its tag and its depth. -/
theorem admissible_of_construct : (p : Blueprint) → p.allStrict = true → (e : Element) →
    p.construct.value.build = .ok e → e.admissible = true ∧ e.tag = p.tag ∧ e.depth = p.depth
  | ⟨tag, v, steps⟩, hstrict, e, h => by
    simp only [Blueprint.allStrict, Bool.and_eq_true] at hstrict
    obtain ⟨hv, hsteps⟩ := hstrict
    obtain rfl : v = .strict := by
      obtain ⟨mode⟩ := v
      cases mode with
      | lenient => cases hv
      | strict => rfl
    rw [Blueprint.construct, Logged.value_bind] at h
    have hnew := build_of_takeAll steps h
    have hknown : (Tag.ofName tag).isKnown = true := by
      cases htag : (Validator.strict.tag tag).outcome with
      | ok known => exact ((Validator.outcome_tag_strict_iff tag known).mp htag).1
      | error error =>
        rw [value_new, htag] at hnew
        cases hnew
    rw [value_new_strict tag hknown] at h
    have hextends := extends_of_takeAll steps hsteps (.ofTag tag) e h
    refine ⟨hextends.admissible (Element.admissible_ofTag tag hknown), hextends.tag, ?_⟩
    obtain ⟨tag', attributes, children⟩ := e
    have hdepth := hextends.depth
    rw [Element.ofTag, Node.depthAll, Nat.zero_max] at hdepth
    rw [depth_element, hdepth, Blueprint.depth]

theorem extends_of_takeAll : (ss : List BuildStep) → BuildStep.allStrict ss = true →
    (e e' : Element) → (BuildStep.takeAll (holding e) ss).value.build = .ok e' →
    Extends e e' (BuildStep.depthAll ss)
  | [], _, e, e', h => by
    rw [value_takeAll_nil] at h
    cases h
    exact extends_refl e
  | .give name value :: ss, hstrict, e, e', h => by
    obtain ⟨next, hnext, hrest⟩ := take_of_takeAll_cons _ ss h
    rw [BuildStep.take] at hnext
    have hgive : Extends e next 0 := extends_of_give (by rw [hnext]; rfl)
    have hmore := hgive.trans (extends_of_takeAll ss hstrict next e' hrest)
    rw [Nat.zero_max] at hmore
    exact hmore
  | .text run :: ss, hstrict, e, e', h => by
    obtain ⟨next, hnext, hrest⟩ := take_of_takeAll_cons _ ss h
    rw [BuildStep.take] at hnext
    have htext : Extends e next 0 := extends_of_text (by rw [hnext]; rfl)
    have hmore := htext.trans (extends_of_takeAll ss hstrict next e' hrest)
    rw [Nat.zero_max] at hmore
    exact hmore
  | .child p :: ss, hstrict, e, e', h => by
    simp only [BuildStep.allStrict, Bool.and_eq_true] at hstrict
    obtain ⟨next, hnext, hrest⟩ := take_of_takeAll_cons _ ss h
    rw [BuildStep.take, Logged.value_bind] at hnext
    have hbuild : ((holding e).child p.construct.value).value.build = .ok next := by
      rw [hnext]
      rfl
    obtain ⟨c, hc, rfl⟩ := exists_of_child hbuild
    obtain ⟨hadmissible, _, hdepth⟩ := admissible_of_construct p hstrict.1 c hc
    have hchild := extends_withChild e c hadmissible
    rw [hdepth] at hchild
    exact hchild.trans (extends_of_takeAll ss hstrict.2 _ e' hrest)

end

/-! ### Written and parsed again -/

/-- What a strict builder makes is accepted as it is written exactly when no joined run is
dangerous, and it is read as its normal form. Where no two runs are neighbours it is accepted. -/
theorem parse_strict_toMarkup_of_build (p : Blueprint) (t : Element) (hstrict : p.allStrict = true)
    (hroot : p.tag = rootName) (hdepth : p.depth ≤ maxDepth) (hbuild : p.build.outcome = .ok t) :
    (∀ root, (parse .strict t.toMarkup).outcome = .ok root ↔
      root = t.normalize ∧ t.normalize.Harmless) ∧
    (t.runsApart = true → (parse .strict t.toMarkup).outcome = .ok t.normalize) := by
  rw [outcome_build] at hbuild
  obtain ⟨hadmissible, htag, hlevels⟩ := admissible_of_construct p hstrict t hbuild
  have hparse := fun root => parse_strict_toMarkup_iff t root hadmissible (htag.trans hroot)
    (by rw [hlevels]; exact hdepth)
  constructor
  · intro root
    rw [hparse root]
    constructor
    · rintro ⟨heq, hnormal⟩
      exact ⟨heq, harmless_of_admissible _ hnormal⟩
    · rintro ⟨heq, hharmless⟩
      exact ⟨heq, admissible_normalize t hadmissible hharmless⟩
  · intro hapart
    exact (hparse _).mpr ⟨rfl, admissible_normalize_of_runsApart t hadmissible hapart⟩

/-- A strict blueprint with an attribute that needs entities and with neighbouring runs. -/
def evenBlueprint : Blueprint :=
  ⟨rootName, .strict, [.text "a ", .text "< b",
    .child ⟨"Button", .strict, [.give "onClick" "save", .give "id" "x&y"]⟩]⟩

def evenTree : Element :=
  ⟨rootName, ∅, [.text "a ", .text "< b",
    .element ⟨"Button", .ofList [("id", "x&y"), ("onClick", "save")], []⟩]⟩

theorem parse_strict_evenTree :
    evenBlueprint.allStrict = true ∧ evenBlueprint.depth ≤ maxDepth ∧
      evenBlueprint.build.outcome = .ok evenTree ∧
      (parse .strict evenTree.toMarkup).outcome = .ok evenTree.normalize := by
  have hbuild : evenBlueprint.build.outcome = .ok evenTree :=
    Checked.eq_ok_of_toOption _ _ (by decide +kernel)
  have hparse := parse_strict_toMarkup_of_build evenBlueprint evenTree (by decide) rfl (by decide)
    hbuild
  have hharmless : evenTree.normalize.Harmless := harmless_of_admissible _ (by decide)
  exact ⟨by decide, by decide, hbuild, (hparse.1 _).mpr ⟨rfl, hharmless⟩⟩

/-- A strict blueprint with two runs that mention a protocol together. -/
def dividedBlueprint : Blueprint :=
  ⟨rootName, .strict, [.text "java", .text "script:alert(1)"]⟩

/-- A strict builder can make a tree that the strict parser does not accept as it is written. -/
theorem exists_build_strict_not_parsed :
    ∃ (p : Blueprint) (t : Element), p.allStrict = true ∧ p.tag = rootName ∧ p.depth ≤ maxDepth ∧
      p.build.outcome = .ok t ∧ ∀ root, (parse .strict t.toMarkup).outcome ≠ .ok root := by
  refine ⟨dividedBlueprint, ⟨rootName, ∅, [.text "java", .text "script:alert(1)"]⟩, by decide,
    rfl, by decide, Checked.eq_ok_of_toOption _ _ (by decide +kernel), ?_⟩
  intro root h
  have hnone : (parse .strict (Element.toMarkup
      ⟨rootName, ∅, [.text "java", .text "script:alert(1)"]⟩)).outcome.toOption = none := by
    decide +kernel
  rw [h] at hnone
  cases hnone

end FrameUI.Markup
