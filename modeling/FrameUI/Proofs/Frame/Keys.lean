import FrameUI.Frame.Store
import FrameUI.Proofs.Markup.Admissible
import FrameUI.Proofs.Markup.Sites

/-!
# Keys of widget state

The state of a widget is kept under its explicit id, or under the tags on the way to it, joined by
slashes. No tag of a document holds a slash, so such a path gives the tags back. Main statement:
when the keys of two sites are the same (`keyAt_eq_iff`).
-/

namespace FrameUI.Frame

open FrameUI.Markup (Element Site isName)

/-! ### Paths -/

/-- The elements from the root down to a site, the site included. -/
def lineage (x : Site) : List Element := x.ancestors ++ [x.element]

def tagsAt (x : Site) : List String := (lineage x).map Element.tag

def keyAt (x : Site) : String := stateKey x.element x.ancestors

theorem toList_tagPath (es : List Element) :
    (tagPath es).toList = ['/'].intercalate (es.map fun e => e.tag.toList) := by
  rw [tagPath, String.toList_intercalate, List.map_map]
  rfl

theorem tagPath_eq_iff {es fs : List Element} (hes : es ≠ []) (hfs : fs ≠ [])
    (hnames : ∀ e ∈ es, '/' ∉ e.tag.toList) (hothers : ∀ f ∈ fs, '/' ∉ f.tag.toList) :
    tagPath es = tagPath fs ↔ es.map Element.tag = fs.map Element.tag := by
  -- The path is split again at its slashes.
  have hsplit : ∀ gs : List Element, gs ≠ [] → (∀ g ∈ gs, '/' ∉ g.tag.toList) →
      (tagPath gs).toList.splitOn '/' = gs.map fun g => g.tag.toList := by
    intro gs hne hplain
    rw [toList_tagPath]
    exact List.splitOn_intercalate '/' (List.forall_mem_map.2 hplain) (by simpa using hne)
  constructor
  · intro h
    have hlists : es.map (fun e => e.tag.toList) = fs.map fun f => f.tag.toList := by
      rw [← hsplit es hes hnames, ← hsplit fs hfs hothers, h]
    have hback := congrArg (List.map String.ofList) hlists
    simpa [Function.comp_def] using hback
  · intro h
    rw [tagPath, tagPath, h]

theorem slash_mem_tagPath (e f : Element) (below : List Element) :
    '/' ∈ (tagPath (e :: f :: below)).toList := by
  rw [toList_tagPath]
  simp [List.intercalate]

/-! ### Sites of a document -/

section Documents

variable {v : Validator} {source : String} {root : Element} {x : Site}

theorem exists_lineage (h : (Markup.parse v source).outcome = .ok root) (hx : x ∈ root.sites []) :
    ∃ below, lineage x = root :: below ∧ ∀ e ∈ lineage x, '/' ∉ e.tag.toList := by
  obtain ⟨below, hpath, hdescends⟩ := Markup.exists_path_of_mem_sites root [] x hx
  refine ⟨below, hpath, fun e he => ?_⟩
  have hroot := Markup.wellNamed_of_parse v source root h
  rw [lineage, hpath] at he
  have hname := Markup.isName_of_wellNamed e (Markup.wellNamed_of_descends hdescends hroot e he)
  exact Markup.not_mem_of_isName hname (by decide)

theorem keyAt_of_id (id : String) (hid : x.element.id? = some id) : keyAt x = id := by
  rw [keyAt, stateKey, hid, Option.getD_some]

theorem keyAt_of_no_id (hid : x.element.id? = none) : keyAt x = tagPath (lineage x) := by
  rw [keyAt, stateKey, hid, Option.getD_none, lineage]

/-- Every path but that of the root has a slash. -/
theorem slash_mem_keyAt (hx : x ∈ root.sites []) (hroot : x ≠ ⟨[], root⟩)
    (hid : x.element.id? = none) : '/' ∈ (keyAt x).toList := by
  obtain ⟨below, hpath, _⟩ := Markup.exists_path_of_mem_sites root [] x hx
  rw [keyAt_of_no_id hid, lineage, hpath]
  cases below with
  | nil =>
    -- The path is the root alone, and so the site is that of the root.
    obtain ⟨ancestors, element⟩ := x
    have halone : ancestors ++ [element] = [] ++ [root] := hpath
    obtain ⟨rfl, hlast⟩ := List.append_inj' halone rfl
    cases hlast
    exact absurd rfl hroot
  | cons f below => exact slash_mem_tagPath root f below

end Documents

/-! ### Equal keys -/

/-- The ways in which two sites come to have one key. -/
inductive SharesKey (x y : Site) : Prop
  | id (id : String) : x.element.id? = some id → y.element.id? = some id → SharesKey x y
  | path : x.element.id? = none → y.element.id? = none → tagsAt x = tagsAt y → SharesKey x y
  | spells : x.element.id? = some (tagPath (lineage y)) → y.element.id? = none → SharesKey x y
  | spelled : x.element.id? = none → y.element.id? = some (tagPath (lineage x)) → SharesKey x y

section Pairs

variable {v v' : Validator} {source source' : String} {root root' : Element} {x y : Site}

theorem keyAt_eq_iff_tagsAt (h : (Markup.parse v source).outcome = .ok root)
    (h' : (Markup.parse v' source').outcome = .ok root') (hx : x ∈ root.sites [])
    (hy : y ∈ root'.sites []) (hxid : x.element.id? = none) (hyid : y.element.id? = none) :
    keyAt x = keyAt y ↔ tagsAt x = tagsAt y := by
  obtain ⟨below, hpath, hplain⟩ := exists_lineage h hx
  obtain ⟨below', hpath', hplain'⟩ := exists_lineage h' hy
  rw [keyAt_of_no_id hxid, keyAt_of_no_id hyid]
  exact tagPath_eq_iff (by simp [hpath]) (by simp [hpath']) hplain hplain'

theorem keyAt_eq_of_sharesKey (h : SharesKey x y) : keyAt x = keyAt y := by
  cases h with
  | id id hx hy => rw [keyAt_of_id id hx, keyAt_of_id id hy]
  | path hx hy htags =>
    rw [keyAt_of_no_id hx, keyAt_of_no_id hy]
    exact congrArg (String.intercalate "/") htags
  | spells hx hy => rw [keyAt_of_id _ hx, keyAt_of_no_id hy]
  | spelled hx hy => rw [keyAt_of_no_id hx, keyAt_of_id _ hy]

theorem sharesKey_of_keyAt_eq (h : (Markup.parse v source).outcome = .ok root)
    (h' : (Markup.parse v' source').outcome = .ok root') (hx : x ∈ root.sites [])
    (hy : y ∈ root'.sites []) (hkey : keyAt x = keyAt y) : SharesKey x y := by
  cases hxid : x.element.id? with
  | none =>
    cases hyid : y.element.id? with
    | none => exact .path hxid hyid ((keyAt_eq_iff_tagsAt h h' hx hy hxid hyid).1 hkey)
    | some id =>
      rw [keyAt_of_no_id hxid, keyAt_of_id id hyid] at hkey
      exact .spelled hxid (hkey ▸ hyid)
  | some id =>
    cases hyid : y.element.id? with
    | none =>
      rw [keyAt_of_id id hxid, keyAt_of_no_id hyid] at hkey
      exact .spells (hkey ▸ hxid) hyid
    | some other =>
      rw [keyAt_of_id id hxid, keyAt_of_id other hyid] at hkey
      exact .id id hxid (hkey ▸ hyid)

end Pairs

/-- For elements of documents that are accepted: without ids they have one key exactly if the tags
from the root down to them are the same; no id without a slash is the key of an element that has
none, but for the root; and what is done to the state of one is found at the other only if they
have one id or one path, or the id of one spells the path of the other. -/
theorem keyAt_eq_iff {v v' : Validator} {source source' : String} {root root' : Element}
    (h : (Markup.parse v source).outcome = .ok root)
    (h' : (Markup.parse v' source').outcome = .ok root') (x y : Site)
    (hx : x ∈ root.sites []) (hy : y ∈ root'.sites []) :
    (x.element.id? = none → y.element.id? = none → (keyAt x = keyAt y ↔ tagsAt x = tagsAt y)) ∧
      (x.element.id? = none → x ≠ ⟨[], root⟩ → ∀ id : String, '/' ∉ id.toList → keyAt x ≠ id) ∧
      (keyAt x = keyAt y ↔ SharesKey x y) ∧
      ∀ (s : Store) (default : WidgetValue) (change : WidgetValue → WidgetValue),
        (s.edit (keyAt x) default change).find? (keyAt y) ≠ s.find? (keyAt y) →
          SharesKey x y := by
  have hshares := sharesKey_of_keyAt_eq h h' hx hy
  refine ⟨keyAt_eq_iff_tagsAt h h' hx hy, ?_, ⟨hshares, keyAt_eq_of_sharesKey⟩, ?_⟩
  · rintro hid hroot id hplain rfl
    exact hplain (slash_mem_keyAt hx hroot hid)
  · intro s default change hchanged
    refine hshares (by_contra fun hne => hchanged ?_)
    rw [Store.find?_edit, if_neg hne]

/-- An input without an id. -/
def inputSite : Site :=
  let input := Element.ofTag "InputText"
  let window : Element := ⟨"Window", ∅, [.element input]⟩
  ⟨[⟨"App", ∅, [.element window]⟩, window], input⟩

/-- A checkbox whose id is the path of that input. -/
def checkboxSite : Site :=
  let checkbox : Element := ⟨"Checkbox", .ofList [("id", "App/Window/InputText")], []⟩
  ⟨[⟨"App", ∅, [.element checkbox]⟩], checkbox⟩

theorem keyAt_eq_iff_spelled :
    ∃ root root', (Markup.parse .strict "<App><Window><InputText/></Window></App>").outcome =
        .ok root ∧
      (Markup.parse .lenient "<App><Checkbox id='App/Window/InputText'/></App>").outcome =
        .ok root' ∧
      inputSite ∈ root.sites [] ∧ checkboxSite ∈ root'.sites [] ∧
      SharesKey inputSite checkboxSite ∧ keyAt inputSite ≠ "input" := by
  have hparse : (Markup.parse .strict "<App><Window><InputText/></Window></App>").outcome =
      .ok (inputSite.ancestors.headD default) :=
    Checked.eq_ok_of_toOption _ _ (by decide +kernel)
  have hparse' : (Markup.parse .lenient
      "<App><Checkbox id='App/Window/InputText'/></App>").outcome =
      .ok (checkboxSite.ancestors.headD default) :=
    Checked.eq_ok_of_toOption _ _ (by decide +kernel)
  have hx : inputSite ∈ (inputSite.ancestors.headD default).sites [] := by decide
  have hy : checkboxSite ∈ (checkboxSite.ancestors.headD default).sites [] := by decide
  obtain ⟨_, hplain, hshares, _⟩ := keyAt_eq_iff hparse hparse' inputSite checkboxSite hx hy
  exact ⟨_, _, hparse, hparse', hx, hy, hshares.1 (by decide),
    hplain (by decide) (by decide) "input" (by decide)⟩

end FrameUI.Frame
