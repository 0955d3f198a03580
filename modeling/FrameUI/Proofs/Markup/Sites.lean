import FrameUI.Proofs.Markup.Normalized
import Mathlib.Data.List.Chain

/-!
# Sites in a tree

The elements of a tree in the order of the document, each with the elements around it. Main
statements: the elements around a site are its ancestors from the root inwards
(`descends_of_mem_sites`), and in a tree with good names every site has one
(`isName_of_mem_sites`).
-/

namespace FrameUI.Markup

/-- An element of a tree and the elements around it, from the root inwards. -/
structure Site where
  ancestors : List Element
  element : Element
deriving DecidableEq

mutual

/-- The sites of a tree that stands inside some elements, each before those inside it. -/
def Element.sites : Element → List Element → List Site
  | ⟨tag, attributes, children⟩, around =>
    ⟨around, ⟨tag, attributes, children⟩⟩ ::
      Node.sitesEach children (around ++ [⟨tag, attributes, children⟩])

def Node.sites : Node → List Element → List Site
  | .element e, around => e.sites around
  | .text _, _ => []

def Node.sitesEach : List Node → List Element → List Site
  | [], _ => []
  | n :: nodes, around => n.sites around ++ Node.sitesEach nodes around

end

theorem Element.sites_eq (e : Element) (around : List Element) :
    e.sites around = ⟨around, e⟩ :: Node.sitesEach e.children (around ++ [e]) := by
  cases e
  rfl

/-! ### Ancestors -/

/-- Each element of a list is a child of the one before it. -/
def Descends (es : List Element) : Prop :=
  es.IsChain fun parent child => .element child ∈ parent.children

mutual

/-- Below the outermost element the path to a site leads from child to child. -/
theorem exists_path_of_mem_sites : (e : Element) → (around : List Element) →
    ∀ x ∈ e.sites around, ∃ below,
      x.ancestors ++ [x.element] = around ++ e :: below ∧ Descends (e :: below)
  | ⟨tag, attributes, children⟩, around => by
    rw [Element.sites]
    refine List.forall_mem_cons.2 ⟨⟨[], rfl, List.isChain_singleton _⟩, fun x hx => ?_⟩
    obtain ⟨c, hc, below, hpath, hdescends⟩ := exists_path_of_mem_sitesEach children _ x hx
    refine ⟨c :: below, ?_, List.isChain_cons_cons.2 ⟨hc, hdescends⟩⟩
    rw [hpath, List.append_assoc]
    rfl

theorem exists_path_of_mem_sitesEach : (nodes : List Node) → (around : List Element) →
    ∀ x ∈ Node.sitesEach nodes around, ∃ c, .element c ∈ nodes ∧ ∃ below,
      x.ancestors ++ [x.element] = around ++ c :: below ∧ Descends (c :: below)
  | [], _ => fun _ hx => absurd hx List.not_mem_nil
  | .element e :: nodes, around => by
    rw [Node.sitesEach, Node.sites]
    refine List.forall_mem_append.2 ⟨fun x hx => ?_, fun x hx => ?_⟩
    · exact ⟨e, List.mem_cons_self, exists_path_of_mem_sites e around x hx⟩
    · obtain ⟨c, hc, hbelow⟩ := exists_path_of_mem_sitesEach nodes around x hx
      exact ⟨c, List.mem_cons_of_mem _ hc, hbelow⟩
  | .text _ :: nodes, around => by
    rw [Node.sitesEach, Node.sites, List.nil_append]
    intro x hx
    obtain ⟨c, hc, hbelow⟩ := exists_path_of_mem_sitesEach nodes around x hx
    exact ⟨c, List.mem_cons_of_mem _ hc, hbelow⟩

end

/-- From the outermost element to the site each element is a child of the one before it. -/
theorem descends_of_mem_sites (e : Element) (around : List Element)
    (h : Descends (around ++ [e])) : ∀ x ∈ e.sites around,
      Descends (x.ancestors ++ [x.element]) ∧
        (around ++ [e]) <+: (x.ancestors ++ [x.element]) := by
  intro x hx
  obtain ⟨below, hpath, hdescends⟩ := exists_path_of_mem_sites e around x hx
  have hall : x.ancestors ++ [x.element] = around ++ [e] ++ below := by simp [hpath]
  rw [hall]
  exact ⟨h.append_overlap hdescends (List.cons_ne_nil e []), List.prefix_append _ _⟩

/-! ### Names -/

theorem not_mem_of_isName {name : String} {c : Char} (h : isName name = true)
    (hc : Text.isNameChar c = false) : c ∉ name.toList := by
  intro hmem
  rw [isName, Bool.and_eq_true, List.all_eq_true] at h
  rw [h.2 c hmem] at hc
  cases hc

theorem wellNamed_of_mem_nodes {c : Element} (nodes : List Node)
    (h : Node.allWellNamed nodes = true) (hc : .element c ∈ nodes) : c.wellNamed = true := by
  induction nodes with
  | nil => cases hc
  | cons n nodes ih =>
    cases n with
    | text s =>
      rw [Node.allWellNamed] at h
      exact ih h (by simpa using hc)
    | element e =>
      rw [Node.allWellNamed, Bool.and_eq_true] at h
      rcases List.mem_cons.1 hc with heq | hc
      · cases heq
        exact h.1
      · exact ih h.2 hc

theorem wellNamed_of_descends {e : Element} {below : List Element} (h : Descends (e :: below))
    (he : e.wellNamed = true) : ∀ d ∈ e :: below, d.wellNamed = true := by
  refine List.IsChain.induction (fun d => d.wellNamed = true) _ h ?_ fun _ => he
  rintro ⟨tag, attributes, children⟩ child hchild hparent
  rw [Element.wellNamed, Bool.and_eq_true] at hparent
  exact wellNamed_of_mem_nodes children hparent.2 hchild

theorem isName_of_wellNamed (e : Element) (h : e.wellNamed = true) : isName e.tag = true := by
  cases e
  rw [Element.wellNamed, Bool.and_eq_true, Bool.and_eq_true] at h
  exact h.1.1

theorem isName_of_mem_sites (e : Element) (around : List Element) (h : e.wellNamed = true) :
    ∀ x ∈ e.sites around, isName x.element.tag = true := by
  intro x hx
  obtain ⟨below, hpath, hdescends⟩ := exists_path_of_mem_sites e around x hx
  have hlast : x.element ∈ e :: below := by
    have hsuffix : e :: below <:+ x.ancestors ++ [x.element] := ⟨around, hpath.symm⟩
    rcases List.suffix_concat_iff.1 hsuffix with hnil | ⟨t, ht, _⟩
    · exact absurd hnil (List.cons_ne_nil e below)
    · rw [ht]
      exact List.mem_append_right t List.mem_cons_self
  exact isName_of_wellNamed _ (wellNamed_of_descends hdescends h _ hlast)

end FrameUI.Markup
