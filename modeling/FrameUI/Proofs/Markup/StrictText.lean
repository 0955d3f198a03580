import FrameUI.Proofs.Markup.Admissible

/-!
# Text under the strict validator

The strict validator looks at every run as it stands in the source, before the entities in it
are decoded. Neither decoding nor trimming can bring a protocol about, so no run of an accepted
tree mentions one. The runs of one element are shown joined, though, and nothing checks them
together: a protocol that a comment or a child element divides is not noticed.
-/

namespace FrameUI.Markup

namespace Element

/-- The text content of an element with at most one run is that run without the blanks around
it. -/
theorem textContent_of_runs_length_le (e : Element) (h : e.runs.length ≤ 1) :
    e.textContent = "" ∨ ∃ run ∈ e.runs, e.textContent = Text.trimmed run := by
  match hruns : e.runs with
  | [] =>
    left
    rw [textContent, show e.children.filterMap Node.text? = [] from hruns]
    rfl
  | [run] =>
    right
    refine ⟨run, List.mem_singleton_self run, ?_⟩
    rw [textContent, show e.children.filterMap Node.text? = [run] from hruns]
    simp [String.join]
  | _ :: _ :: _ =>
    rw [hruns] at h
    simp at h

end Element

/-- In a tree that the strict validator accepts no run of any element mentions a dangerous
protocol, and neither does the text content of an element with at most one run. -/
theorem textContent_of_parse_strict (source : String) (root e : Element)
    (h : (parse .strict source).outcome = .ok root) (he : Element.Within e root) :
    (∀ run ∈ e.runs, isDangerous run.toList = false) ∧
      (e.runs.length ≤ 1 → isDangerous e.textContent.toList = false) := by
  have hruns := harmless_of_parse_strict source root h e he
  refine ⟨hruns, fun hone => ?_⟩
  rcases Element.textContent_of_runs_length_le e hone with hempty | ⟨run, hrun, hcontent⟩
  · rw [hempty]
    decide
  · cases hdangerous : isDangerous e.textContent.toList with
    | false => rfl
    | true =>
      rw [hcontent, Text.trimmed, String.toList_ofList] at hdangerous
      rw [← isDangerous_of_infix (Text.trim_infix run.toList) hdangerous, hruns run hrun]

/-- A text element with one run, in a document. -/
def greeting : Element := ⟨"Text", ∅, [.text "Hello &"]⟩

theorem textContent_greeting :
    (parse .strict "<App><Text>Hello &amp;</Text></App>").outcome =
        .ok ⟨rootName, ∅, [.element greeting]⟩ ∧
      Element.Within greeting ⟨rootName, ∅, [.element greeting]⟩ ∧
      isDangerous greeting.textContent.toList = false := by
  have hparse : (parse .strict "<App><Text>Hello &amp;</Text></App>").outcome =
      .ok ⟨rootName, ∅, [.element greeting]⟩ :=
    Checked.eq_ok_of_toOption _ _ (by decide +kernel)
  have hwithin : Element.Within greeting ⟨rootName, ∅, [.element greeting]⟩ :=
    .child _ greeting _ List.mem_cons_self (.self greeting)
  exact ⟨hparse, hwithin, (textContent_of_parse_strict _ _ greeting hparse hwithin).2 (by decide)⟩

/-- A text element whose text is divided by a comment, inside a protocol. -/
def dividedProtocol : Element := ⟨"Text", ∅, [.text "java", .text "script:alert(1)"]⟩

/-- The strict validator can accept a tree with a protocol in a text content. -/
theorem exists_parse_strict_dangerous :
    ∃ source root e, (parse .strict source).outcome = .ok root ∧ Element.Within e root ∧
      isDangerous e.textContent.toList = true := by
  refine ⟨"<App><Text>java<!-- -->script:alert(1)</Text></App>",
    ⟨rootName, ∅, [.element dividedProtocol]⟩, dividedProtocol, ?_, ?_, by decide⟩
  · exact Checked.eq_ok_of_toOption _ _ (by decide +kernel)
  · exact .child _ dividedProtocol _ List.mem_cons_self (.self dividedProtocol)

end FrameUI.Markup
