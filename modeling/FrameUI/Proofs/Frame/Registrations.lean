import FrameUI.Frame.Handlers
import FrameUI.Proofs.Frame.Histories
import FrameUI.Proofs.Outcome
import FrameUI.Proofs.Text.Numerals

/-!
# Registrations

A registry of handlers is asked to register, to remove and to run handlers, in any order. What it
holds under a name follows from the history: the handler registered last under that name, unless it
was removed since. A generated name is never given twice, but it may be a name that was chosen
before; then the handler that stood under it is lost. Main statement: `serve_after`.
-/

namespace FrameUI.Frame

/-! ### Requests -/

/-- What is asked of a registry. -/
inductive HandlerRequest where
  | register (name label : String)
  | registerUnnamed (label : String)
  | remove (name : String)
  | dispatch (name : String)
deriving DecidableEq

/-- What a registry answers: the name it generated, the run of a handler, or that none is
registered. -/
inductive HandlerReply where
  | done
  | named (name : String)
  | fired (firing : Firing)
  | missing (error : MissingHandler)
deriving DecidableEq

namespace Handlers

/-- The answer to a request, and the registry afterwards. -/
def serve (hs : Handlers) : HandlerRequest → HandlerReply × Handlers
  | .register name label => (.done, (hs.register name label).value)
  | .registerUnnamed label =>
    let given := (hs.registerUnnamed label).value
    (.named given.1, given.2)
  | .remove name => (.done, hs.remove name)
  | .dispatch name =>
    match Checked.outcome (hs.dispatch name) with
    | .ok (firing, next) => (.fired firing, next)
    | .error missing => (.missing missing, hs)

/-- A new registry after some requests. -/
def after (past : List HandlerRequest) : Handlers :=
  past.foldl (fun hs request => (hs.serve request).2) ∅

theorem after_concat (past : List HandlerRequest) (request : HandlerRequest) :
    after (past ++ [request]) = ((after past).serve request).2 := List.foldl_append

theorem serve_dispatch_of_none (hs : Handlers) (name : String)
    (h : hs.table.find? name = none) : hs.serve (.dispatch name) = (.missing ⟨name⟩, hs) := by
  rw [serve, dispatch_of_none hs name h]
  rfl

theorem serve_dispatch_of_some (hs : Handlers) (name : String) (handler : Handler)
    (h : hs.table.find? name = some handler) :
    hs.serve (.dispatch name) = (.fired ⟨handler.label, handler.runs + 1⟩,
      { hs with table := hs.table.insert name { handler with runs := handler.runs + 1 } }) := by
  rw [serve, outcome_dispatch_of_some hs name handler h]

/-! ### Generated names -/

theorem generatedName_inj (m n : Nat) (h : generatedName m = generatedName n) : m = n := by
  apply Numeral.repr_inj
  have hlists := congrArg String.toList h
  simp only [generatedName, String.toList_append] at hlists
  exact String.toList_inj.mp (by simpa using hlists)

theorem nextGenerated_serve (hs : Handlers) (request : HandlerRequest) :
    (hs.serve request).2.nextGenerated =
      hs.nextGenerated + (if request matches .registerUnnamed _ then 1 else 0) := by
  cases request with
  | dispatch name =>
    cases hfind : hs.table.find? name with
    | none => rw [serve_dispatch_of_none hs name hfind]; rfl
    | some handler => rw [serve_dispatch_of_some hs name handler hfind]; rfl
  | _ => rfl

theorem nextGenerated_le (before more : List HandlerRequest) :
    (after before).nextGenerated ≤ (after (before ++ more)).nextGenerated := by
  induction more using List.reverseRecOn with
  | nil => simp
  | append_singleton more request ih =>
    rw [← List.append_assoc, after_concat, nextGenerated_serve]
    omega

theorem nextGenerated_lt (before later : List HandlerRequest) (label : String) :
    (after before).nextGenerated <
      (after (before ++ .registerUnnamed label :: later)).nextGenerated := by
  have hgiven := nextGenerated_serve (after before) (.registerUnnamed label)
  have hlater := nextGenerated_le (before ++ [.registerUnnamed label]) later
  rw [after_concat, hgiven, List.append_assoc] at hlater
  exact hlater

/-! ### What is registered under a name -/

/-- A request registers a handler under a name, which it gives or gets. -/
def Registers (past : List HandlerRequest) (name label : String) (request : HandlerRequest) :
    Prop :=
  request = .register name label ∨
    request = .registerUnnamed label ∧ ((after past).serve request).1 = .named name

/-- A handler stands under a name: it was registered there, and among the requests since then none
removed it or put another in its place. -/
def Standing (past : List HandlerRequest) (name label : String) (since : List HandlerRequest) :
    Prop :=
  ∃ before request, past = before ++ request :: since ∧ Registers before name label request ∧
    ∀ part other more, since = part ++ other :: more →
      other ≠ .remove name ∧ ∀ newer, ¬ Registers (before ++ request :: part) name newer other

/-- A name was chosen for a handler, and not freed since. -/
def Chosen (past : List HandlerRequest) (name : String) : Prop :=
  ∃ before label since, past = before ++ .register name label :: since ∧ .remove name ∉ since

variable {past since : List HandlerRequest} {request : HandlerRequest} {name label : String}
  {entry : Option Handler}

theorem find?_serve_of_registers (h : Registers past name label request) :
    ((after past).serve request).2.table.find? name = some ⟨label, 0⟩ := by
  rcases h with rfl | ⟨rfl, hname⟩
  · exact (find?_register _ name name label).trans (if_pos rfl)
  · have hgiven : generatedName (after past).nextGenerated = name := HandlerReply.named.inj hname
    exact (find?_register _ _ name label).trans (if_pos hgiven)

/-- A request that neither registers nor removes under a name leaves the handler there, and runs
it at most. -/
theorem find?_serve_of_not_registers (hother : ∀ newer, ¬ Registers past name newer request)
    (hremove : request ≠ .remove name) :
    ((after past).serve request).2.table.find? name =
      if request = .dispatch name then
        ((after past).table.find? name).map fun handler => ⟨handler.label, handler.runs + 1⟩
      else (after past).table.find? name := by
  cases request with
  | register key label =>
    have hne : key ≠ name := fun heq => hother label (Or.inl (by rw [heq]))
    rw [if_neg nofun]
    exact (find?_register _ key name label).trans (if_neg hne)
  | registerUnnamed label =>
    have hne : generatedName (after past).nextGenerated ≠ name :=
      fun heq => hother label (Or.inr ⟨rfl, congrArg HandlerReply.named heq⟩)
    rw [if_neg nofun]
    exact (find?_register _ _ name label).trans (if_neg hne)
  | remove key =>
    have hne : name ≠ key := fun heq => hremove (by rw [heq])
    rw [if_neg nofun]
    exact (Dict.find?_erase _ key name).trans (if_neg hne)
  | dispatch key =>
    cases hfind : (after past).table.find? key with
    | none =>
      rw [serve_dispatch_of_none _ key hfind]
      split
      · rename_i heq
        cases heq
        rw [hfind]
        rfl
      · rfl
    | some handler =>
      rw [serve_dispatch_of_some _ key handler hfind, Dict.find?_insert]
      by_cases hkey : key = name
      · subst hkey
        rw [if_pos rfl, if_pos rfl, hfind]
        rfl
      · rw [if_neg hkey, if_neg fun heq => hkey (HandlerRequest.dispatch.inj heq)]

theorem find?_serve_remove (hs : Handlers) (name : String) :
    (hs.serve (.remove name)).2.table.find? name = none :=
  (Dict.find?_erase hs.table name name).trans (if_pos rfl)

theorem standing_concat_iff :
    Standing (past ++ [request]) name label since ↔
      (since = [] ∧ Registers past name label request) ∨
        ∃ earlier, since = earlier ++ [request] ∧ Standing past name label earlier ∧
          request ≠ .remove name ∧ ∀ newer, ¬ Registers past name newer request := by
  constructor
  · rintro ⟨before, first, hsplit, hregisters, hsince⟩
    rcases concat_eq_append_cons hsplit with ⟨rfl, rfl, rfl⟩ | ⟨earlier, rfl, rfl⟩
    · exact Or.inl ⟨rfl, hregisters⟩
    · refine Or.inr ⟨earlier, rfl, ⟨before, first, rfl, hregisters, ?_⟩,
        hsince earlier request [] rfl⟩
      intro part other more heq
      exact hsince part other (more ++ [request]) (by rw [heq]; simp)
  · rintro (⟨rfl, hregisters⟩ | ⟨earlier, rfl, ⟨before, first, rfl, hregisters, hsince⟩, hkept⟩)
    · refine ⟨past, request, rfl, hregisters, ?_⟩
      intro part other more heq
      cases part <;> cases heq
    · refine ⟨before, first, by simp, hregisters, ?_⟩
      intro part other more heq
      rcases concat_eq_append_cons heq with ⟨_, rfl, rfl⟩ | ⟨rest, _, rfl⟩
      · exact hkept
      · exact hsince part other rest rfl

theorem Registers.label_eq {other : String} (h : Registers past name label request)
    (h' : Registers past name other request) : label = other := by
  rcases h with rfl | ⟨rfl, _⟩
  · rcases h' with heq | ⟨heq, _⟩
    · cases heq
      rfl
    · cases heq
  · rcases h' with heq | ⟨heq, _⟩
    · cases heq
    · cases heq
      rfl

/-- One handler at most stands under a name. -/
theorem Standing.unique {other : String} {later : List HandlerRequest}
    (h : Standing past name label since) (h' : Standing past name other later) :
    label = other ∧ since = later := by
  induction past using List.reverseRecOn generalizing since later with
  | nil =>
    obtain ⟨before, _, heq, _⟩ := h
    cases before <;> cases heq
  | append_singleton past request ih =>
    rcases standing_concat_iff.mp h with ⟨rfl, hregisters⟩ | ⟨earlier, rfl, hstanding, _, hother⟩
    · rcases standing_concat_iff.mp h' with ⟨rfl, hregisters'⟩ | ⟨_, _, _, _, hother'⟩
      · exact ⟨hregisters.label_eq hregisters', rfl⟩
      · exact absurd hregisters (hother' label)
    · rcases standing_concat_iff.mp h' with ⟨_, hregisters'⟩ | ⟨earlier', rfl, hstanding', _⟩
      · exact absurd hregisters' (hother other)
      · obtain ⟨rfl, rfl⟩ := ih hstanding hstanding'
        exact ⟨rfl, rfl⟩

/-- What is to be found under a name after some requests. -/
inductive Holds (past : List HandlerRequest) (name : String) : Option Handler → Prop
  | vacant : (∀ label since, ¬ Standing past name label since) → Holds past name none
  | standing (label : String) (since : List HandlerRequest) : Standing past name label since →
      Holds past name (some ⟨label, since.count (.dispatch name)⟩)

theorem Holds.remove (past : List HandlerRequest) (name : String) :
    Holds (past ++ [.remove name]) name none := by
  refine .vacant fun label since hstanding => ?_
  rcases standing_concat_iff.mp hstanding with ⟨_, hregisters⟩ | ⟨_, _, _, hremove, _⟩
  · rcases hregisters with heq | ⟨heq, _⟩ <;> cases heq
  · exact hremove rfl

/-- A request that neither registers nor removes under a name counts as a run of the handler there
if it asks for one. -/
theorem Holds.keep (h : Holds past name entry) (hother : ∀ newer, ¬ Registers past name newer request)
    (hremove : request ≠ .remove name) :
    Holds (past ++ [request]) name
      (if request = .dispatch name then
        entry.map fun handler => ⟨handler.label, handler.runs + 1⟩
      else entry) := by
  cases h with
  | vacant hnone =>
    have hvacant : Holds (past ++ [request]) name none := by
      refine .vacant fun label since hstanding => ?_
      rcases standing_concat_iff.mp hstanding with ⟨_, hregisters⟩ | ⟨earlier, _, hearlier, _⟩
      · exact hother label hregisters
      · exact hnone label earlier hearlier
    split
    · exact hvacant
    · exact hvacant
  | standing label since hstanding =>
    have hnext := Holds.standing label (since ++ [request])
      (standing_concat_iff.mpr (Or.inr ⟨since, rfl, hstanding, hremove, hother⟩))
    rw [List.count_append, List.count_singleton] at hnext
    split
    · rename_i heq
      subst heq
      simpa using hnext
    · rename_i hne
      simpa [hne] using hnext

theorem holds_after (past : List HandlerRequest) (name : String) :
    Holds past name ((after past).table.find? name) := by
  induction past using List.reverseRecOn with
  | nil => exact .vacant fun label since ⟨before, first, heq, _⟩ => by cases before <;> cases heq
  | append_singleton past request ih =>
    rw [after_concat]
    by_cases hregisters : ∃ label, Registers past name label request
    · obtain ⟨label, hregisters⟩ := hregisters
      rw [find?_serve_of_registers hregisters]
      exact .standing label [] (standing_concat_iff.mpr (Or.inl ⟨rfl, hregisters⟩))
    · have hother := not_exists.mp hregisters
      by_cases hremove : request = .remove name
      · subst hremove
        rw [find?_serve_remove]
        exact .remove past name
      · rw [find?_serve_of_not_registers hother hremove]
        exact ih.keep hother hremove

/-- A generated name under which a handler stands was chosen for it, as no name is generated
twice. -/
theorem chosen_of_standing
    (h : Standing past (generatedName (after past).nextGenerated) label since) :
    Chosen past (generatedName (after past).nextGenerated) := by
  obtain ⟨before, request, heq, hregisters, hsince⟩ := h
  rcases hregisters with rfl | ⟨rfl, hname⟩
  · refine ⟨before, label, since, heq, fun hmem => ?_⟩
    obtain ⟨part, more, rfl⟩ := List.append_of_mem hmem
    exact (hsince part _ more rfl).1 rfl
  · have hlt := nextGenerated_lt before since label
    rw [← heq] at hlt
    have hsame := generatedName_inj _ _ (HandlerReply.named.inj hname)
    omega

theorem chosen_of_find? {handler : Handler}
    (h : (after past).table.find? (generatedName (after past).nextGenerated) = some handler) :
    Chosen past (generatedName (after past).nextGenerated) := by
  have hholds := holds_after past (generatedName (after past).nextGenerated)
  rw [h] at hholds
  cases hholds with
  | standing label since hstanding => exact chosen_of_standing hstanding

/-- What one request does to the handler under a name: it stays as it is, runs, is removed, or has
another put in its place, by a request that gives its name or by one for which this name is
generated although it was chosen before. -/
theorem find?_serve_cases (past : List HandlerRequest) (request : HandlerRequest) (name : String)
    (handler : Handler) (h : (after past).table.find? name = some handler) :
    ((after past).serve request).2.table.find? name = some handler ∨
      (request = .dispatch name ∧ ((after past).serve request).2.table.find? name =
        some ⟨handler.label, handler.runs + 1⟩) ∨
      request = .remove name ∨ (∃ label, request = .register name label) ∨
      ∃ label, request = .registerUnnamed label ∧
        ((after past).serve request).1 = .named name ∧ Chosen past name := by
  by_cases hregisters : ∃ label, Registers past name label request
  · obtain ⟨label, rfl | ⟨rfl, hname⟩⟩ := hregisters
    · exact Or.inr (Or.inr (Or.inr (Or.inl ⟨label, rfl⟩)))
    · obtain rfl := HandlerReply.named.inj hname
      exact Or.inr (Or.inr (Or.inr (Or.inr ⟨label, rfl, hname, chosen_of_find? h⟩)))
  · have hother := not_exists.mp hregisters
    by_cases hremove : request = .remove name
    · exact Or.inr (Or.inr (Or.inl hremove))
    · rw [find?_serve_of_not_registers hother hremove, h]
      by_cases hdispatch : request = .dispatch name
      · exact Or.inr (Or.inl ⟨hdispatch, if_pos hdispatch⟩)
      · exact Or.inl (if_neg hdispatch)

/-- After any requests, a generated name was never generated before, and if a handler stands under
it, the name was chosen for that handler. So a handler is replaced only by a request that gives its
name, or by one for which its chosen name is generated. To dispatch a name is to run the handler
that stands under it, once; if there is none, the answer says so and nothing changes. -/
theorem serve_after (past : List HandlerRequest) :
    (∀ label, ∃ name, ((after past).serve (.registerUnnamed label)).1 = .named name ∧
      (∀ before earlier later, past = before ++ .registerUnnamed earlier :: later →
        ((after before).serve (.registerUnnamed earlier)).1 ≠ .named name) ∧
      ((after past).contains name = true → Chosen past name)) ∧
    (∀ request name handler, (after past).table.find? name = some handler →
      ((after past).serve request).2.table.find? name = some handler ∨
        (request = .dispatch name ∧ ((after past).serve request).2.table.find? name =
          some ⟨handler.label, handler.runs + 1⟩) ∨
        request = .remove name ∨ (∃ label, request = .register name label) ∨
        ∃ label, request = .registerUnnamed label ∧
          ((after past).serve request).1 = .named name ∧ Chosen past name) ∧
    ∀ name, (∀ label since, Standing past name label since →
        ((after past).serve (.dispatch name)).1 =
          .fired ⟨label, since.count (.dispatch name) + 1⟩) ∧
      ((∀ label since, ¬ Standing past name label since) →
        (after past).serve (.dispatch name) = (.missing ⟨name⟩, after past)) := by
  refine ⟨fun label => ⟨_, rfl, ?_, fun hcontains => ?_⟩, find?_serve_cases past, fun name => ?_⟩
  · rintro before earlier later rfl hsame
    have hlt := nextGenerated_lt before later earlier
    have heq := generatedName_inj _ _ (HandlerReply.named.inj hsame)
    omega
  · obtain ⟨handler, hfind⟩ := Option.isSome_iff_exists.mp hcontains
    exact chosen_of_find? hfind
  · have hholds := holds_after past name
    generalize hfind : (after past).table.find? name = entry at hholds
    constructor
    · intro label since hstanding
      cases hholds with
      | vacant hnone => exact absurd hstanding (hnone label since)
      | standing label' since' hstanding' =>
        obtain ⟨rfl, rfl⟩ := hstanding.unique hstanding'
        rw [serve_dispatch_of_some _ name _ hfind]
    · intro hnone
      cases hholds with
      | vacant _ => exact serve_dispatch_of_none _ name hfind
      | standing label since hstanding => exact absurd hstanding (hnone label since)

/-- A name can be generated although a handler stands under it, and that handler is lost. -/
theorem exists_registerUnnamed_replaces :
    ∃ past label name, ((after past).serve (.registerUnnamed label)).1 = .named name ∧
      (after past).contains name = true ∧
      ((after past).serve (.dispatch name)).1 = .fired ⟨"save", 1⟩ ∧
      ((after (past ++ [.registerUnnamed label])).serve (.dispatch name)).1 = .fired ⟨"undo", 1⟩ :=
  ⟨[.register "jsx_fn_0" "save"], "undo", "jsx_fn_0", by decide +kernel⟩

end Handlers
end FrameUI.Frame
