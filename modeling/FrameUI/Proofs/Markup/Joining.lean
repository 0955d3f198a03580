import FrameUI.Proofs.Markup.Admissible

/-!
# Joined runs

The normal form of a tree joins neighbouring runs, and two harmless runs can mention a protocol
together. That is all that can go wrong: the normal form of an admissible tree is admissible if
it is harmless, and it is harmless if no two runs of the tree are neighbours.
-/

namespace FrameUI.Markup

/-! ### Runs and elements -/

theorem filterMap_element?_mergeRuns (nodes : List Node) :
    (Node.mergeRuns nodes).filterMap Node.element? = nodes.filterMap Node.element? := by
  induction nodes with
  | nil => rfl
  | cons n nodes ih =>
    cases n with
    | element e => simp only [Node.mergeRuns, List.filterMap_cons, Node.element?, ih]
    | text s =>
      rw [List.filterMap_cons, Node.element?, ← ih, Node.mergeRuns]
      split
      · rename_i heq
        rw [heq]
        rfl
      · rfl

theorem filterMap_element?_tidy? (nodes : List Node) :
    (nodes.filterMap Node.tidy?).filterMap Node.element? = nodes.filterMap Node.element? := by
  rw [List.filterMap_filterMap]
  congr 1
  funext n
  cases n with
  | element e => rfl
  | text s =>
    rw [Node.tidy?]
    split
    · rfl
    · rfl

theorem filterMap_element?_normalizeEach (nodes : List Node) :
    (Node.normalizeEach nodes).filterMap Node.element? =
      (nodes.filterMap Node.element?).map Element.normalize := by
  induction nodes with
  | nil => rfl
  | cons n nodes ih =>
    cases n with
    | element e => simp only [Node.normalizeEach, List.filterMap_cons, Node.element?, ih,
        List.map_cons]
    | text s => simp only [Node.normalizeEach, List.filterMap_cons, Node.element?, ih]

theorem elements_normalize (e : Element) :
    e.normalize.elements = e.elements.map Element.normalize := by
  cases e
  rw [Element.normalize, Element.elements, filterMap_element?_tidy?,
    filterMap_element?_mergeRuns, filterMap_element?_normalizeEach]
  rfl

/-! ### Admissible normal forms -/

mutual

/-- Joining runs can only bring about a dangerous run. -/
theorem admissible_normalize : (e : Element) → e.admissible = true → e.normalize.Harmless →
    e.normalize.admissible = true
  | ⟨tag, attributes, children⟩, h, hharmless => by
    obtain ⟨htag, hentries, hchildren⟩ := (Element.admissible_iff _).mp h
    obtain ⟨hruns, helements⟩ := (Element.harmless_iff _).mp hharmless
    refine (Element.admissible_iff _).mpr ⟨htag, hentries, (allAdmissible_iff _).mpr ⟨hruns, ?_⟩⟩
    intro c hc
    have hc' : c ∈ Element.elements (Element.normalize ⟨tag, attributes, children⟩) := hc
    rw [elements_normalize] at hc' helements
    obtain ⟨d, hd, rfl⟩ := List.mem_map.mp hc'
    exact admissible_normalize_of_mem children hchildren d hd (helements _ hc')

theorem admissible_normalize_of_mem : (nodes : List Node) → Node.allAdmissible nodes = true →
    ∀ c ∈ nodes.filterMap Node.element?, c.normalize.Harmless → c.normalize.admissible = true
  | [], _, c, hc, _ => absurd hc List.not_mem_nil
  | .element e :: nodes, h, c, hc, hharmless => by
    simp only [Node.allAdmissible, Bool.and_eq_true] at h
    rcases List.mem_cons.mp hc with heq | hc
    · rw [heq] at hharmless ⊢
      exact admissible_normalize e h.1 hharmless
    · exact admissible_normalize_of_mem nodes h.2 c hc hharmless
  | .text s :: nodes, h, c, hc, hharmless => by
    simp only [Node.allAdmissible, Bool.and_eq_true] at h
    exact admissible_normalize_of_mem nodes h.2 c hc hharmless

end

theorem mergeRuns_normalizeEach_of_apart (nodes : List Node) (afterRun : Bool)
    (h : Node.allApart afterRun nodes = true) :
    Node.mergeRuns (Node.normalizeEach nodes) = Node.normalizeEach nodes := by
  induction nodes generalizing afterRun with
  | nil => rfl
  | cons n nodes ih =>
    cases n with
    | element e =>
      simp only [Node.allApart, Bool.and_eq_true] at h
      rw [Node.normalizeEach, Node.mergeRuns, ih false h.2]
    | text s =>
      simp only [Node.allApart, Bool.and_eq_true] at h
      rw [Node.normalizeEach, Node.mergeRuns, ih true h.2]
      cases nodes with
      | nil => rfl
      | cons m nodes =>
        cases m with
        | element e => rfl
        | text t => cases h.2

mutual

/-- Without neighbouring runs the normal form only loses blanks. -/
theorem admissible_normalize_of_runsApart : (e : Element) → e.admissible = true →
    e.runsApart = true → e.normalize.admissible = true
  | ⟨tag, attributes, children⟩, h, hapart => by
    obtain ⟨htag, hentries, hchildren⟩ := (Element.admissible_iff _).mp h
    refine (Element.admissible_iff _).mpr ⟨htag, hentries, ?_⟩
    rw [Element.normalize, mergeRuns_normalizeEach_of_apart children false hapart]
    exact allAdmissible_tidied_of_apart children false hchildren hapart

theorem allAdmissible_tidied_of_apart : (nodes : List Node) → (afterRun : Bool) →
    Node.allAdmissible nodes = true → Node.allApart afterRun nodes = true →
    Node.allAdmissible ((Node.normalizeEach nodes).filterMap Node.tidy?) = true
  | [], _, _, _ => rfl
  | .element e :: nodes, _, h, hapart => by
    simp only [Node.allAdmissible, Node.allApart, Bool.and_eq_true] at h hapart
    rw [Node.normalizeEach, filterMap_tidy?_cons, allAdmissible_append,
      allAdmissible_tidied_of_apart nodes false h.2 hapart.2, Bool.and_true]
    rw [Node.tidy?, Option.toList, Node.allAdmissible,
      admissible_normalize_of_runsApart e h.1 hapart.1]
    rfl
  | .text s :: nodes, _, h, hapart => by
    simp only [Node.allAdmissible, Node.allApart, Bool.and_eq_true, Bool.not_eq_true'] at h hapart
    have hsuffix : Text.trimStart s.toList <:+ s.toList := List.dropWhile_suffix Text.isBlank
    have htrim : isDangerous (Text.trimStart s.toList) = false := by
      cases hd : isDangerous (Text.trimStart s.toList) with
      | false => rfl
      | true =>
        have hwhole := isDangerous_of_infix hsuffix.isInfix hd
        rw [hwhole] at h
        cases h.1
    rw [Node.normalizeEach, filterMap_tidy?_cons, allAdmissible_append,
      allAdmissible_tidied_of_apart nodes true h.2 hapart.2, Bool.and_true, Node.tidy?]
    split
    · rfl
    · rw [Option.toList, Node.allAdmissible, String.toList_ofList, htrim]
      rfl

end

end FrameUI.Markup
