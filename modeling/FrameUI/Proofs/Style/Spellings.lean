import FrameUI.Proofs.Style.Expansion
import FrameUI.Proofs.Text.Words
import FrameUI.Style.Color
import Mathlib.Data.List.Induction

/-!
# References in the text of a colour

A colour can be written with letters, and letters can name variables. The digits of a colour
follow a digit or a `#`, so the one word of a colour that substitution can take for a reference is
the `rgb` in front of a bracket. Main statement: `substitute_of_ofText`, that the text of a colour
is its own expansion unless it is written with `rgb` and a variable has that name.
-/

namespace FrameUI.Style

/-! ### Where references can begin -/

/-- Whether a character can begin a reference. -/
def beginsReference (c : Char) : Bool := c.isAlpha || c == '_'

/-- Where every character but the first follows a name character or a `#`, or begins no
reference, a reference can only stand in front. -/
theorem IsReference.eq_front {lead a b before word after : List Char}
    (h : IsReference before word after) (hlead : Text.AllBlank lead)
    (ha : ∀ c ∈ a, Text.isNameChar c = true ∨ c = '#')
    (hb : ∀ c ∈ b, beginsReference c = false)
    (heq : lead ++ (a ++ b) = before ++ (word ++ after)) : word ++ after = a ++ b := by
  obtain ⟨first, letters, hword⟩ := List.exists_cons_of_ne_nil h.longest.nonempty
  have hfirst : Text.isNameChar first = true :=
    h.longest.letters first (by rw [hword]; exact List.mem_cons_self)
  have hbegins : beginsReference first = true := by
    have hfront := h.front
    rw [hword] at hfront
    exact hfront
  rcases List.append_eq_append_iff.mp heq with ⟨more, hbefore, hrest⟩ | ⟨gap, hgap, hrest⟩
  · -- what stands between the blanks and the word is neither in `a` nor behind it
    cases more with
    | nil => exact hrest.symm
    | cons d more =>
      exfalso
      have hlast : ∀ c ∈ (d :: more).getLast?, Text.isNameChar c = false ∧ c ≠ '#' := by
        intro c hc
        apply h.behind c
        rw [hbefore, getLast?_append_of_ne_nil _ _ (List.cons_ne_nil d more)]
        exact hc
      rcases List.append_eq_append_iff.mp hrest with ⟨inner, hmore, hinner⟩ | ⟨inner, hinner, _⟩
      · have hmem : first ∈ b := by
          rw [hinner, hword]
          simp
        rw [hb first hmem] at hbegins
        cases hbegins
      · have hsome := List.getLast?_isSome.mpr (List.cons_ne_nil d more)
        obtain ⟨c, hc⟩ := Option.isSome_iff_exists.mp hsome
        have hmem : c ∈ a := by
          rw [hinner]
          exact List.mem_append_left _ (List.mem_of_getLast? hc)
        rcases ha c hmem with hname | hhash
        · rw [(hlast c hc).1] at hname
          cases hname
        · exact (hlast c hc).2 hhash
  · cases gap with
    | nil => exact hrest
    | cons d gap =>
      have hblank : Text.isBlank first = true := by
        apply hlead first
        rw [hword, List.cons_append, List.cons_append] at hrest
        rw [hgap, (List.cons.inj hrest).1]
        simp
      rw [Text.not_blank_of_nameChar first hfirst] at hblank
      cases hblank

/-! ### The digits of a colour -/

theorem isAlpha_iff (c : Char) :
    c.isAlpha = true ↔ 65 ≤ c.toNat ∧ c.toNat ≤ 90 ∨ 97 ≤ c.toNat ∧ c.toNat ≤ 122 := by
  have halpha : c.isAlpha = (decide (65 ≤ c.toNat ∧ c.toNat ≤ 90) ||
      (decide (97 ≤ c.toNat) && decide (c.toNat ≤ 122))) := rfl
  rw [halpha, Bool.or_eq_true, Bool.and_eq_true, decide_eq_true_eq, decide_eq_true_eq,
    decide_eq_true_eq]

theorem nameChar_of_isDigit (c : Char) (h : c.isDigit = true) : Text.isNameChar c = true := by
  simp [Text.isNameChar, Text.isAlphanumeric, h]

theorem nameChar_of_isAlpha (c : Char) (h : c.isAlpha = true) : Text.isNameChar c = true := by
  simp [Text.isNameChar, Text.isAlphanumeric, h]

theorem nameChar_of_hexDigit? {c : Char} {n : Nat} (h : hexDigit? c = some n) :
    Text.isNameChar c = true := by
  unfold hexDigit? at h
  split at h
  · rename_i hdigit
    exact nameChar_of_isDigit c hdigit
  · split at h
    · rename_i hsmall
      have hbounds : 97 ≤ c.toNat ∧ c.toNat ≤ 102 := hsmall
      exact nameChar_of_isAlpha c ((isAlpha_iff c).mpr (by omega))
    · split at h
      · rename_i hcapital
        have hbounds : 65 ≤ c.toNat ∧ c.toNat ≤ 70 := hcapital
        exact nameChar_of_isAlpha c ((isAlpha_iff c).mpr (by omega))
      · cases h

theorem nameChar_of_hexNumber? {s : List Char} {n : Nat} (h : hexNumber? s = some n) :
    ∀ c ∈ s, Text.isNameChar c = true := by
  induction s using List.reverseRecOn generalizing n with
  | nil => exact fun _ hc => absurd hc List.not_mem_nil
  | append_singleton s d ih =>
    rw [hexNumber?, List.foldl_append] at h
    obtain ⟨m, hm, hd⟩ := Option.bind_eq_some_iff.mp h
    obtain ⟨digit, hdigit, _⟩ := Option.map_eq_some_iff.mp hd
    intro c hc
    rcases List.mem_append.mp hc with hc | hc
    · exact ih hm c hc
    · rw [List.mem_singleton.mp hc]
      exact nameChar_of_hexDigit? hdigit

theorem nameChar_of_readHex {input : String} {digits : List Char} {n : Nat}
    (h : Rgba.readHex input digits = .ok n) : ∀ c ∈ digits, Text.isNameChar c = true := by
  unfold Rgba.readHex at h
  split at h
  · rename_i m hm
    exact nameChar_of_hexNumber? hm
  · cases h

theorem exists_of_map_ok {ε α β : Type} {f : α → β} {x : Except ε α} {b : β}
    (h : x.map f = .ok b) : ∃ a, x = .ok a := by
  cases x with
  | ok a => exact ⟨a, rfl⟩
  | error e => cases h

theorem exists_of_bind_ok {ε α β : Type} {f : α → Except ε β} {x : Except ε α} {b : β}
    (h : x >>= f = .ok b) : ∃ a, x = .ok a ∧ f a = .ok b := by
  cases x with
  | ok a => exact ⟨a, rfl, h⟩
  | error e => cases h

theorem nameChar_of_readPacked {input : String} {digits : List Char} {c : Rgba}
    (h : Rgba.readPacked input digits = .ok c) : ∀ d ∈ digits, Text.isNameChar d = true := by
  unfold Rgba.readPacked at h
  split at h
  · obtain ⟨n, hn⟩ := exists_of_map_ok h
    exact nameChar_of_readHex hn
  · split at h
    · obtain ⟨n, hn⟩ := exists_of_map_ok h
      exact nameChar_of_readHex hn
    · cases h

theorem nameChar_of_readHash {input : String} {digits : List Char} {c : Rgba}
    (h : Rgba.readHash input digits = .ok c) : ∀ d ∈ digits, Text.isNameChar d = true := by
  unfold Rgba.readHash at h
  split at h
  · obtain ⟨n, hn⟩ := exists_of_map_ok h
    exact nameChar_of_readHex hn
  · split at h
    · obtain ⟨n, hn⟩ := exists_of_map_ok h
      exact nameChar_of_readHex hn
    · cases h

/-! ### The channels of a colour -/

theorem not_beginsReference_of_isDigit (c : Char) (h : c.isDigit = true) :
    beginsReference c = false := by
  have hdigit : c.isDigit = (decide (48 ≤ c.toNat) && decide (c.toNat ≤ 57)) := rfl
  rw [hdigit, Bool.and_eq_true, decide_eq_true_eq, decide_eq_true_eq] at h
  have halpha : c.isAlpha = false := by
    rw [Bool.eq_false_iff, ne_eq, isAlpha_iff]
    omega
  have hscore : (c == '_') = false := by
    apply beq_eq_false_iff_ne.mpr
    rintro rfl
    exact absurd h (by decide)
  rw [beginsReference, halpha, hscore]
  rfl

theorem not_beginsReference_of_blank (c : Char) (h : Text.isBlank c = true) :
    beginsReference c = false := by
  cases hbegins : beginsReference c with
  | false => rfl
  | true =>
    have hname : Text.isNameChar c = true := by
      rcases Bool.or_eq_true_iff.mp hbegins with hc | hc
      · exact nameChar_of_isAlpha c hc
      · simp [Text.isNameChar, hc]
    rw [Text.not_blank_of_nameChar c hname] at h
    cases h

theorem not_beginsReference_of_readChannel {input : String} {s : List Char} {channel : UInt8}
    (h : Rgba.readChannel input s = .ok channel) : ∀ c ∈ s, beginsReference c = false := by
  unfold Rgba.readChannel at h
  simp only at h
  split at h
  · rename_i hdigits
    simp only [Bool.and_eq_true, List.all_eq_true] at hdigits
    have hall := hdigits.1.2
    cases hsign : Text.dropLead? ['+'] s with
    | none =>
      rw [hsign, Option.getD_none] at hall
      exact fun c hc => not_beginsReference_of_isDigit c (hall c hc)
    | some r =>
      rw [hsign, Option.getD_some] at hall
      rw [(Text.dropLead?_eq_some _ _ _).mp hsign]
      intro c hc
      rcases List.mem_cons.mp hc with rfl | hc
      · decide
      · exact not_beginsReference_of_isDigit c (hall c hc)
  · cases h

/-- Between the brackets there are digits, signs, commas and blanks. -/
theorem not_beginsReference_of_readFunction {input : String} {s : List Char} {color : Rgba}
    (h : Rgba.readFunction input s = .ok color) : ∀ c ∈ s, beginsReference c = false := by
  unfold Rgba.readFunction at h
  split at h
  · rename_i hlast
    split at h
    · rename_i r g b hparts
      obtain ⟨red, hred, h⟩ := exists_of_bind_ok h
      obtain ⟨green, hgreen, h⟩ := exists_of_bind_ok h
      obtain ⟨blue, hblue, _⟩ := exists_of_bind_ok h
      have hpart : ∀ part ∈ Text.splitOn (· == ',') s.dropLast, ∀ c ∈ part,
          beginsReference c = false := by
        intro part hpart c hc
        rcases Text.mem_trim_or_blank hc with hblank | htrim
        · exact not_beginsReference_of_blank c hblank
        · have hmem : Text.trim part ∈ [r, g, b] := by
            rw [← hparts]
            exact List.mem_map_of_mem hpart
          simp only [List.mem_cons, List.not_mem_nil, or_false] at hmem
          rcases hmem with heq | heq | heq
          · rw [heq] at htrim
            exact not_beginsReference_of_readChannel hred c htrim
          · rw [heq] at htrim
            exact not_beginsReference_of_readChannel hgreen c htrim
          · rw [heq] at htrim
            exact not_beginsReference_of_readChannel hblue c htrim
      obtain ⟨front, rfl⟩ := List.getLast?_eq_some_iff.mp hlast
      rw [List.dropLast_concat] at hpart
      intro c hc
      rcases List.mem_append.mp hc with hc | hc
      · rcases Text.mem_splitOn (· == ',') front c hc with hcomma | ⟨part, hmem, hc⟩
        · rw [beq_iff_eq.mp hcomma]
          decide
        · exact hpart part hmem c hc
      · rw [List.mem_singleton.mp hc]
        decide
    · cases h
  · cases h

/-! ### Colours -/

/-- Whether a colour is written as `rgb` with its channels in brackets. -/
def writesFunction (text : String) : Bool :=
  ['r', 'g', 'b', '('].isPrefixOf (Text.trim text.toList)

/-- A word in front of a text begins with a character that can begin a reference. -/
theorem IsReference.begins {before word after : List Char} (h : IsReference before word after)
    (c : Char) (s : List Char) (hcons : word ++ after = c :: s) : beginsReference c = true := by
  obtain ⟨d, letters, hword⟩ := List.exists_cons_of_ne_nil h.longest.nonempty
  have hfront := h.front
  rw [hword] at hcons hfront
  rw [← (List.cons.inj hcons).1]
  exact hfront

/-- The only reference in the text of a colour is the `rgb` in front of a bracket. -/
theorem reference_of_ofText {text : String} {color : Rgba} (h : Rgba.ofText text = .ok color)
    {before word after : List Char} (href : IsReference before word after)
    (heq : text.toList = before ++ (word ++ after)) :
    writesFunction text = true ∧ word = ['r', 'g', 'b'] := by
  obtain ⟨lead, trail, hlead, htrail, htext⟩ := Text.exists_blanks_trim text.toList
  have hbehind : ∀ c ∈ trail, beginsReference c = false :=
    fun c hc => not_beginsReference_of_blank c (htrail c hc)
  -- behind a character that begins no reference, all other name characters belong to its run
  have hnone : ∀ c s, beginsReference c = false →
      (∀ d ∈ c :: s, Text.isNameChar d = true ∨ d = '#') →
      Text.trim text.toList = c :: s → False := by
    intro c s hc hall hform
    rw [htext, hform] at heq
    have hbegins := href.begins c _ (href.eq_front hlead hall hbehind heq)
    rw [hc] at hbegins
    cases hbegins
  unfold Rgba.ofText at h
  split at h
  · rename_i digits hform
    have hdigits := nameChar_of_readPacked h
    refine (hnone '0' ('x' :: digits) (by decide) ?_ hform).elim
    exact List.forall_mem_cons.mpr ⟨Or.inl (by decide), List.forall_mem_cons.mpr
      ⟨Or.inl (by decide), fun d hd => Or.inl (hdigits d hd)⟩⟩
  · rename_i digits hform
    have hdigits := nameChar_of_readPacked h
    refine (hnone '0' ('X' :: digits) (by decide) ?_ hform).elim
    exact List.forall_mem_cons.mpr ⟨Or.inl (by decide), List.forall_mem_cons.mpr
      ⟨Or.inl (by decide), fun d hd => Or.inl (hdigits d hd)⟩⟩
  · rename_i digits hform
    have hdigits := nameChar_of_readHash h
    refine (hnone '#' digits (by decide) ?_ hform).elim
    exact List.forall_mem_cons.mpr ⟨Or.inr rfl, fun d hd => Or.inl (hdigits d hd)⟩
  · rename_i rest hform
    have hrest := not_beginsReference_of_readFunction h
    rw [htext, hform] at heq
    have hparts : lead ++ (['r', 'g', 'b'] ++ ('(' :: rest ++ trail)) =
        before ++ (word ++ after) := heq
    have hletters : ∀ c ∈ ['r', 'g', 'b'], Text.isNameChar c = true := List.all_eq_true.mp rfl
    have hchannels : ∀ c ∈ '(' :: rest ++ trail, beginsReference c = false :=
      List.forall_mem_append.mpr ⟨List.forall_mem_cons.mpr ⟨by decide, hrest⟩, hbehind⟩
    have hfront := href.eq_front hlead (fun c hc => Or.inl (hletters c hc)) hchannels hparts
    have hname : Text.LongestName ['r', 'g', 'b'] ('(' :: rest ++ trail) :=
      ⟨List.cons_ne_nil _ _, hletters, Text.stopsAt_cons _ _ _ (by decide)⟩
    refine ⟨?_, (href.longest.unique hname hfront).1⟩
    rw [writesFunction, hform]
    rfl
  · cases h

/-! ### Substitution in a colour -/

/-- A colour is its own expansion, unless it is written with `rgb` and a variable has that
name. -/
theorem substitute_of_ofText (vars : Bindings) (text : String) (color : Rgba)
    (h : Rgba.ofText text = .ok color)
    (hrgb : writesFunction text = true → vars.find? "rgb" = none) :
    substitute vars text = pure text := by
  apply substitute_of_isExpanded
  intro t ht
  generalize hs : text.toList = s at ht
  obtain ⟨before, word, after, value, href, hvalue⟩ := ht
  obtain ⟨hfunction, rfl⟩ := reference_of_ofText h href hs
  rw [show String.ofList ['r', 'g', 'b'] = "rgb" from rfl, hrgb hfunction] at hvalue
  cases hvalue

end FrameUI.Style
