import FrameUI.Proofs.Style.CheckedColors
import FrameUI.Proofs.Style.ColorTexts

/-!
# Colours as they are written

A colour is shown as `0x` with two hexadecimal digits for each channel, zeros included, and that
text is one of the forms in which colours are read. Main statement: whatever blanks stand around
it and in whatever case its letters are, it is read as the colour that it shows
(`Rgba.ofText_text`).
-/

namespace FrameUI.Style

/-! ### Letter case -/

/-- What holds of a character that is its own small letter, and of the capital letters. -/
theorem toLower_induction {P : Char → Prop} (c : Char) (hkept : c.toLower = c → P c)
    (hcapital : ∀ n ∈ List.range 91, 65 ≤ n → P (Char.ofNat n)) : P c := by
  by_cases h : 65 ≤ c.toNat ∧ c.toNat ≤ 90
  · have hc := hcapital c.toNat (List.mem_range.2 (by omega)) h.1
    rwa [Char.ofNat_toNat] at hc
  · exact hkept (dif_neg h)

theorem hexDigit?_toLower (c : Char) : hexDigit? c.toLower = hexDigit? c := by
  apply toLower_induction c
  · intro hkept
    rw [hkept]
  · decide

theorem hexNumber?_lowered (s : List Char) : hexNumber? (Text.lowered s) = hexNumber? s := by
  rw [hexNumber?, Text.lowered, List.foldl_map]
  simp only [hexDigit?_toLower]
  rfl

/-- The two characters in front of the digits, in either case. -/
theorem eq_of_toLower (c : Char) :
    (c.toLower = '0' → c = '0') ∧ (c.toLower = 'x' → c = 'x' ∨ c = 'X') := by
  apply toLower_induction c
  · intro hkept
    rw [hkept]
    exact ⟨id, Or.inl⟩
  · decide

namespace Rgba

/-! ### Reading back -/

/-- The texts of a colour in letters of either case: `0x` or `0X` and digits that spell it. -/
theorem exists_digits_of_lowered {c : Rgba} {written : List Char}
    (h : Text.lowered written = Text.lowered c.text.toList) :
    ∃ x ds, written = '0' :: x :: ds ∧ (x = 'x' ∨ x = 'X') ∧ ds.length = 8 ∧
      hexNumber? ds = some c.packed := by
  rw [toList_text] at h
  obtain ⟨zero, behind, rfl, hzero, hbehind⟩ := List.map_eq_cons_iff.1 h
  obtain ⟨x, ds, rfl, hx, hds⟩ := List.map_eq_cons_iff.1 hbehind
  obtain rfl : zero = '0' := (eq_of_toLower zero).1 hzero
  refine ⟨x, ds, rfl, (eq_of_toLower x).2 hx, ?_, ?_⟩
  · simpa [length_digits] using congrArg List.length hds
  · have hlowered : Text.lowered ds = Text.lowered c.digits := hds
    rw [← hexNumber?_lowered, hlowered, hexNumber?_lowered, hexNumber?_digits]

variable {c : Rgba} {written : List Char}

theorem nameChar_of_lowered (h : Text.lowered written = Text.lowered c.text.toList) :
    ∀ d ∈ written, Text.isNameChar d = true := by
  obtain ⟨x, ds, rfl, hx, _, hnumber⟩ := exists_digits_of_lowered h
  refine List.forall_mem_cons.2 ⟨by decide, List.forall_mem_cons.2 ⟨?_, ?_⟩⟩
  · rcases hx with rfl | rfl <;> decide
  · exact nameChar_of_hexNumber? hnumber

theorem trim_of_lowered (h : Text.lowered written = Text.lowered c.text.toList)
    {lead trail : List Char} (hlead : Text.AllBlank lead) (htrail : Text.AllBlank trail) :
    Text.trim (String.ofList (lead ++ written ++ trail)).toList = written := by
  rw [String.toList_ofList, Text.trim_append_blanks _ _ htrail, Text.trim_blanks_append _ _ hlead]
  exact trim_of_no_blank written fun d hd =>
    Text.not_blank_of_nameChar d (nameChar_of_lowered h d hd)

theorem ofText_of_lowered (h : Text.lowered written = Text.lowered c.text.toList)
    {input : String} (hinput : Text.trim input.toList = written) : ofText input = .ok c := by
  obtain ⟨x, ds, rfl, hx, hlength, hnumber⟩ := exists_digits_of_lowered h
  have hspells := (hexNumber?_eq_some_iff ds c.packed).1 hnumber
  have hread := (readPacked_eq_ok_iff input ds c).2 (Or.inl ⟨hlength, hspells⟩)
  rw [ofText, hinput]
  rcases hx with rfl | rfl
  · exact hread
  · exact hread

theorem not_writesFunction_of_lowered (h : Text.lowered written = Text.lowered c.text.toList)
    {input : String} (hinput : Text.trim input.toList = written) :
    writesFunction input = false := by
  obtain ⟨x, ds, rfl, _⟩ := exists_digits_of_lowered h
  rw [writesFunction, hinput]
  rfl

theorem isBare_of_nameChar (d : Char) (h : Text.isNameChar d = true) : isBare d = true := by
  have hblank := Text.not_blank_of_nameChar d h
  have hsemicolon : d ≠ ';' := by
    rintro rfl
    exact absurd h (by decide)
  have hbrace : d ≠ '\x7d' := by
    rintro rfl
    exact absurd h (by decide)
  simp [isBare, hblank, hsemicolon, hbrace]

/-- A displayed colour needs no quotes in a declaration. -/
theorem readValue?_of_lowered (h : Text.lowered written = Text.lowered c.text.toList)
    (rest : List Char) : readValue? (written ++ ';' :: rest) = some (written, ';' :: rest) := by
  have hnames := nameChar_of_lowered h
  refine readValue?_of_bare written _ (fun d hd => isBare_of_nameChar d (hnames d hd)) ?_
    (Text.stopsAt_cons isBare ';' rest (by decide)) ⟨';', rest, rfl, by decide, by decide⟩
  rintro q r rfl
  have hq := hnames q List.mem_cons_self
  constructor
  · rintro rfl
    exact absurd hq (by decide)
  · rintro rfl
    exact absurd hq (by decide)

/-- Every word is the packed form of a colour and comes back from its channels. The text that the
colour is shown as spells the word in eight digits; with any blanks around it and its letters in
any case it is read as the colour, as a text of its own, as the value of a declaration, and under
a property that stands for a colour whatever variables there are. -/
theorem ofText_text (w : UInt32) (lead written trail : List Char) (hlead : Text.AllBlank lead)
    (htrail : Text.AllBlank trail)
    (hwritten : Text.lowered written = Text.lowered (ofPacked w.toNat).text.toList) :
    let c := ofPacked w.toNat
    let input := String.ofList (lead ++ written ++ trail)
    (Rgba.mk c.red c.green c.blue c.alpha).packed = w.toNat ∧
      (∃ ds, c.text.toList = '0' :: 'x' :: ds ∧ ds.length = 8 ∧ Spells 16 ds w.toNat) ∧
      ofText input = .ok c ∧
      (∀ rest, readValue? (written ++ ';' :: rest) = some (written, ';' :: rest)) ∧
      ∀ property, PropertyKind.ofName property = .color →
        StyleValue.ofText property input = pure (.color c) ∧
          ∀ vars style,
            applyDeclaration vars style property input = pure (style.insert property (.color c)) := by
  intro c input
  have hpacked : c.packed = w.toNat := packed_ofPacked w.toNat w.toNat_lt
  have hinput := trim_of_lowered hwritten hlead htrail
  have hread : ofText input = .ok c := ofText_of_lowered hwritten hinput
  have hspells : Spells 16 c.digits w.toNat := by
    rw [← hpacked, ← hexNumber?_eq_some_iff]
    exact hexNumber?_digits c
  have hfunction := not_writesFunction_of_lowered hwritten hinput
  refine ⟨hpacked, ⟨c.digits, toList_text c, length_digits c, hspells⟩, hread,
    readValue?_of_lowered hwritten, fun property hkind => ⟨ofText_of_kind hkind hread, ?_⟩⟩
  intro vars style
  refine applyDeclaration_of_kind vars hkind hread (fun h => ?_) style
  rw [hfunction] at h
  cases h

/-- Zeros in front of the digits and small letters, between a space and a newline. -/
theorem ofText_text_small :
    Text.AllBlank [' '] ∧ Text.AllBlank ['\n'] ∧
      Text.lowered "0x00000a0f".toList = Text.lowered (ofPacked 2575).text.toList ∧
      ofText " 0x00000a0f\n" = .ok ⟨0, 0, 10, 15⟩ ∧
      StyleValue.ofText "text-color" " 0x00000a0f\n" = pure (.color ⟨0, 0, 10, 15⟩) := by
  have hlead : Text.AllBlank [' '] := List.forall_mem_singleton.2 (by decide)
  have htrail : Text.AllBlank ['\n'] := List.forall_mem_singleton.2 (by decide)
  have hwritten : Text.lowered "0x00000a0f".toList = Text.lowered (ofPacked 2575).text.toList := by
    decide
  obtain ⟨_, _, hread, _, hstyle⟩ := ofText_text 2575 [' '] _ ['\n'] hlead htrail hwritten
  exact ⟨hlead, htrail, hwritten, hread, (hstyle "text-color" (by decide)).1⟩

end Rgba

end FrameUI.Style
