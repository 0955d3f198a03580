import FrameUI.Frame.Call
import FrameUI.Proofs.Style.ColorTexts
import FrameUI.Proofs.Text.Numerals
import FrameUI.Proofs.Text.Pieces
import Mathlib.Data.List.Basic

/-!
# Lines of calls

The line of a call names a method and lists the arguments, texts in quotes and all else plain.
Main statement: calls with the same line are the same call, but for the flags of a window, if no
two of their numbers share a text (`Call.unflagged_eq_of_traceLine_eq`).
-/

namespace FrameUI.Frame

open FrameUI.Text (Piece isPlainChar)
open FrameUI.Style (Rgba)

/-! ### Texts of values -/

theorem isPlainChar_of_isDigit (c : Char) (h : c.isDigit = true) : isPlainChar c = true := by
  have hmark : ∀ d : Char, d.isDigit = false → (c != d) = true := by
    intro d hd
    rw [bne_iff_ne]
    rintro rfl
    rw [h] at hd
    cases hd
  unfold isPlainChar
  rw [hmark ',' rfl, hmark ')' rfl, hmark '\x22' rfl, hmark '\n' rfl]
  rfl

theorem plain_of_all (s : List Char) (h : s.all isPlainChar = true) :
    ∀ c ∈ s, isPlainChar c = true := List.all_eq_true.1 h

theorem plain_toDigits (n : Nat) : ∀ c ∈ Nat.toDigits 10 n, isPlainChar c = true :=
  fun c hc => isPlainChar_of_isDigit c (Nat.isDigit_of_mem_toDigits (by decide) (by decide) hc)

theorem plain_positional (digits : Nat) (exponent : Int) :
    ∀ c ∈ Single.positional digits exponent, isPlainChar c = true := by
  have hdigits := plain_toDigits digits
  have hzeros : ∀ n, ∀ c ∈ List.replicate n '0', isPlainChar c = true := by
    intro n c hc
    rw [List.eq_of_mem_replicate hc]
    rfl
  unfold Single.positional
  split
  · exact List.forall_mem_append.2 ⟨hdigits, hzeros _⟩
  · simp only
    split
    · refine List.forall_mem_append.2 ⟨fun c hc => hdigits c (List.mem_of_mem_take hc), ?_⟩
      exact List.forall_mem_cons.2 ⟨rfl, fun c hc => hdigits c (List.mem_of_mem_drop hc)⟩
    · refine List.forall_mem_append.2 ⟨List.forall_mem_append.2 ⟨?_, hzeros _⟩, hdigits⟩
      exact plain_of_all _ (by decide)

theorem plain_single (x : Single) : ∀ c ∈ x.text.toList, isPlainChar c = true := by
  cases x with
  | nan => exact plain_of_all _ (by decide)
  | infinite negative => cases negative <;> exact plain_of_all _ (by decide)
  | finite negative units =>
    have hmagnitude : ∀ c ∈ Single.magnitude units, isPlainChar c = true := by
      unfold Single.magnitude
      split
      · exact plain_of_all _ (by decide)
      · exact plain_positional _ _
    rw [Single.text, String.toList_ofList]
    split
    · exact List.forall_mem_cons.2 ⟨rfl, hmagnitude⟩
    · exact hmagnitude

theorem plain_hexChar : ∀ n < 16, isPlainChar (Style.hexChar n) = true := by decide

theorem plain_hexByte (b : UInt8) : ∀ c ∈ Rgba.hexByte b, isPlainChar c = true := by
  have hb := b.toNat_lt
  refine List.forall_mem_cons.2 ⟨plain_hexChar _ (by omega), List.forall_mem_singleton.2 ?_⟩
  exact plain_hexChar _ (by omega)

theorem plain_color (c : Rgba) : ∀ x ∈ c.text.toList, isPlainChar x = true := by
  rw [Rgba.text, String.toList_ofList]
  refine List.forall_mem_cons.2 ⟨rfl, List.forall_mem_cons.2 ⟨rfl, ?_⟩⟩
  intro x hx
  obtain ⟨b, _, hb⟩ := List.mem_flatMap.1 hx
  exact plain_hexByte b x hb

theorem condition_name_inj (c d : Condition) (h : c.name = d.name) : c = d := by
  cases c <;> cases d <;> first | rfl | exact absurd h (by decide)

theorem slot_name_inj (c d : ColorSlot) (h : c.name = d.name) : c = d := by
  cases c <;> cases d <;> first | rfl | exact absurd h (by decide)

/-! ### Methods and arguments -/

namespace Call

/-- The method that the line of a call names. -/
def method : Call → String
  | beginWindow .. => "Begin"
  | endWindow => "End"
  | text .. => "Text"
  | textColored .. => "TextColored"
  | button .. => "Button"
  | inputText .. => "InputTextWithHint"
  | slider .. => "SliderFloat"
  | checkbox .. => "Checkbox"
  | sameLine .. => "SameLine"
  | spacing => "Spacing"
  | separator => "Separator"
  | windowSize .. => "SetNextWindowSize"
  | itemWidth .. => "SetNextItemWidth"
  | pushColor .. => "PushStyleColor"
  | popColors .. => "PopStyleColor"

/-- What stands between the commas of the line. The brackets around several numbers belong to the
first and the last of them. -/
def pieces : Call → List Piece
  | beginWindow name _ => [.quoted name]
  | text content => [.quoted content]
  | textColored color content =>
    [.plain ("[" ++ color.red.text), .plain color.green.text, .plain color.blue.text,
      .plain (color.alpha.text ++ "]"), .quoted content]
  | button label => [.quoted label]
  | inputText label hint buffer capacity =>
    [.quoted label, .quoted hint, .quoted buffer, .plain capacity.repr]
  | slider label value low high =>
    [.quoted label, .plain value.text, .plain low.text, .plain high.text]
  | checkbox label checked => [.quoted label, .plain (toString checked)]
  | sameLine offset gap => [.plain offset.text, .plain gap.text]
  | windowSize width height condition =>
    [.plain ("[" ++ width.text), .plain (height.text ++ "]"),
      .plain ("ImGui.Cond." ++ condition.name)]
  | itemWidth width => [.plain width.text]
  | pushColor slot color => [.plain ("ImGui.Col." ++ slot.name), .plain color.text]
  | popColors count => [.plain count.repr]
  | endWindow | spacing | separator => []

theorem toString_self (s : String) : toString s = s := rfl

theorem toList_traceLine (c : Call) :
    c.traceLine.toList =
      "ImGui.".toList ++ (c.method.toList ++ '(' :: (Piece.listed c.pieces ++ [';'])) := by
  cases c <;> unfold traceLine <;>
    simp [channelsText, toString_self, method, pieces, Piece.listed, Piece.text]

theorem isClear_bracketed (x : Single) :
    (Piece.plain ("[" ++ x.text)).IsClear ∧ (Piece.plain (x.text ++ "]")).IsClear := by
  constructor
  · show ∀ c ∈ ("[" ++ x.text).toList, isPlainChar c = true
    rw [String.toList_append]
    exact List.forall_mem_append.2 ⟨plain_of_all _ (by decide), plain_single x⟩
  · show ∀ c ∈ (x.text ++ "]").toList, isPlainChar c = true
    rw [String.toList_append]
    exact List.forall_mem_append.2 ⟨plain_single x, plain_of_all _ (by decide)⟩

theorem isClear_repr (n : Nat) : (Piece.plain n.repr).IsClear := by
  show ∀ c ∈ n.repr.toList, isPlainChar c = true
  rw [Nat.repr, String.toList_ofList]
  exact plain_toDigits n

theorem isClear_pieces (c : Call) : ∀ p ∈ c.pieces, p.IsClear := by
  cases c with
  | beginWindow name flags => exact List.forall_mem_singleton.2 trivial
  | text content => exact List.forall_mem_singleton.2 trivial
  | button label => exact List.forall_mem_singleton.2 trivial
  | textColored color content =>
    simp only [pieces, List.forall_mem_cons]
    exact ⟨(isClear_bracketed _).1, plain_single _, plain_single _, (isClear_bracketed _).2,
      trivial, List.forall_mem_nil _⟩
  | inputText label hint buffer capacity =>
    simp only [pieces, List.forall_mem_cons]
    exact ⟨trivial, trivial, trivial, isClear_repr capacity, List.forall_mem_nil _⟩
  | slider label value low high =>
    simp only [pieces, List.forall_mem_cons]
    exact ⟨trivial, plain_single _, plain_single _, plain_single _, List.forall_mem_nil _⟩
  | checkbox label checked =>
    simp only [pieces, List.forall_mem_cons]
    refine ⟨trivial, ?_, List.forall_mem_nil _⟩
    show ∀ c ∈ (toString checked).toList, isPlainChar c = true
    cases checked <;> exact plain_of_all _ (by decide)
  | sameLine offset gap =>
    simp only [pieces, List.forall_mem_cons]
    exact ⟨plain_single _, plain_single _, List.forall_mem_nil _⟩
  | windowSize width height condition =>
    simp only [pieces, List.forall_mem_cons]
    refine ⟨(isClear_bracketed _).1, (isClear_bracketed _).2, ?_, List.forall_mem_nil _⟩
    show ∀ c ∈ ("ImGui.Cond." ++ condition.name).toList, isPlainChar c = true
    cases condition <;> exact plain_of_all _ (by decide)
  | itemWidth width => exact List.forall_mem_singleton.2 (plain_single _)
  | pushColor slot color =>
    simp only [pieces, List.forall_mem_cons]
    refine ⟨?_, plain_color color, List.forall_mem_nil _⟩
    show ∀ c ∈ ("ImGui.Col." ++ slot.name).toList, isPlainChar c = true
    cases slot <;> exact plain_of_all _ (by decide)
  | popColors count => exact List.forall_mem_singleton.2 (isClear_repr count)
  | endWindow => exact List.forall_mem_nil _
  | spacing => exact List.forall_mem_nil _
  | separator => exact List.forall_mem_nil _

/-! ### What a line says of its call -/

/-- The call without the flags of a window. -/
def unflagged : Call → Call
  | beginWindow name _ => beginWindow name ⟨0⟩
  | c => c

/-- The numbers that a call passes. -/
def singles : Call → List Single
  | textColored color _ => [color.red, color.green, color.blue, color.alpha]
  | slider _ value low high => [value, low, high]
  | sameLine offset gap => [offset, gap]
  | windowSize width height _ => [width, height]
  | itemWidth width => [width]
  | _ => []

/-- A method says how many arguments it takes, and its arguments determine the call. -/
theorem pieces_of_method_eq (c d : Call) (hmethod : c.method = d.method)
    (hsingles : ∀ x ∈ c.singles, ∀ y ∈ d.singles, x.text = y.text → x = y) :
    c.pieces.length = d.pieces.length ∧ (c.pieces = d.pieces → c.unflagged = d.unflagged) := by
  -- The method leaves the pairs of one shape, and their lists are compared piece by piece.
  cases c <;> cases d <;> first
    | (simp [method] at hmethod; done)
    | refine ⟨rfl, fun hpieces => ?_⟩
      simp only [pieces, singles, unflagged, List.cons.injEq, Piece.quoted.injEq,
        Piece.plain.injEq, String.append_right_inj, String.append_left_inj,
        and_true] at hpieces hsingles ⊢
  case beginWindow.beginWindow =>
    exact congrArg (beginWindow · _) hpieces
  case text.text =>
    exact congrArg text hpieces
  case button.button =>
    exact congrArg button hpieces
  case textColored.textColored color content color' content' =>
    obtain ⟨red, green, blue, alpha⟩ := color
    obtain ⟨red', green', blue', alpha'⟩ := color'
    obtain ⟨hred, hgreen, hblue, halpha, rfl⟩ := hpieces
    obtain rfl := hsingles red (by simp) red' (by simp) hred
    obtain rfl := hsingles green (by simp) green' (by simp) hgreen
    obtain rfl := hsingles blue (by simp) blue' (by simp) hblue
    obtain rfl := hsingles alpha (by simp) alpha' (by simp) halpha
    rfl
  case inputText.inputText =>
    obtain ⟨rfl, rfl, rfl, hcapacity⟩ := hpieces
    exact congrArg (inputText _ _ _) (Numeral.repr_inj _ _ hcapacity)
  case slider.slider _ value low high _ value' low' high' =>
    obtain ⟨rfl, hvalue, hlow, hhigh⟩ := hpieces
    obtain rfl := hsingles value (by simp) value' (by simp) hvalue
    obtain rfl := hsingles low (by simp) low' (by simp) hlow
    obtain rfl := hsingles high (by simp) high' (by simp) hhigh
    rfl
  case checkbox.checkbox checked _ checked' =>
    obtain ⟨rfl, hchecked⟩ := hpieces
    cases checked <;> cases checked' <;> first | rfl | exact absurd hchecked (by decide)
  case sameLine.sameLine offset gap offset' gap' =>
    obtain ⟨hoffset, hgap⟩ := hpieces
    obtain rfl := hsingles offset (by simp) offset' (by simp) hoffset
    obtain rfl := hsingles gap (by simp) gap' (by simp) hgap
    rfl
  case windowSize.windowSize width height _ width' height' _ =>
    obtain ⟨hwidth, hheight, hcondition⟩ := hpieces
    obtain rfl := hsingles width (by simp) width' (by simp) hwidth
    obtain rfl := hsingles height (by simp) height' (by simp) hheight
    exact congrArg (windowSize _ _) (condition_name_inj _ _ hcondition)
  case itemWidth.itemWidth width width' =>
    exact congrArg itemWidth (hsingles width (by simp) width' (by simp) hpieces)
  case pushColor.pushColor =>
    obtain ⟨hslot, hcolor⟩ := hpieces
    obtain rfl := slot_name_inj _ _ hslot
    exact congrArg (pushColor _) (Rgba.text_inj hcolor)
  case popColors.popColors =>
    exact congrArg popColors (Numeral.repr_inj _ _ hpieces)

theorem isAlpha_method (c : Call) : ∀ x ∈ c.method.toList, x.isAlpha = true := by
  have hall : c.method.toList.all Char.isAlpha = true := by
    cases c <;> (dsimp only [method]; decide)
  exact List.all_eq_true.1 hall

theorem not_newline_mem_traceLine (c : Call) : '\n' ∉ c.traceLine.toList := by
  have hmethod : '\n' ∉ c.method.toList := fun hmem => absurd (c.isAlpha_method _ hmem) (by decide)
  rw [toList_traceLine, List.mem_append, List.mem_append, List.mem_cons, List.mem_append]
  rintro (hmem | hmem | hmem | hmem | hmem)
  · exact absurd hmem (by decide)
  · exact hmethod hmem
  · exact absurd hmem (by decide)
  · exact Piece.not_newline_mem_listed _ c.isClear_pieces hmem
  · exact absurd hmem (by decide)

/-- Calls with the same line are the same call, but for the flags of a window, if no two of their
numbers share a text. -/
theorem unflagged_eq_of_traceLine_eq (c d : Call) (h : c.traceLine = d.traceLine)
    (hsingles : ∀ x ∈ c.singles, ∀ y ∈ d.singles, x.text = y.text → x = y) :
    c.unflagged = d.unflagged := by
  have hchars := congrArg String.toList h
  rw [toList_traceLine, toList_traceLine] at hchars
  -- A method is named by letters alone, so its name is over at the bracket.
  have hopen : ∀ rest, Text.StopsAt Char.isAlpha ('(' :: rest) := fun rest =>
    Text.stopsAt_cons _ _ _ rfl
  obtain ⟨hmethod, hlists⟩ := Text.append_inj_of_stopsAt Char.isAlpha c.isAlpha_method
    d.isAlpha_method (hopen _) (hopen _) (List.append_cancel_left hchars)
  obtain ⟨hlength, hcalls⟩ := pieces_of_method_eq c d (String.toList_inj.1 hmethod) hsingles
  exact hcalls (Piece.listed_append_inj _ _ hlength c.isClear_pieces d.isClear_pieces _ _
    (List.cons.inj hlists).2)

end Call
end FrameUI.Frame
