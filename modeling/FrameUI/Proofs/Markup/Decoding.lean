import FrameUI.Proofs.Markup.Reparsing
import FrameUI.Proofs.Text.Numerals

/-!
# Checks before and after decoding

The parser checks values and runs as they stand in the source, the builder checks what they
denote. An entity stands for a character that belongs to no protocol, no handler name and no
numeral, so both see the same: `isDangerous_decode` for runs and `expectedValue?_unescape` for
the values of attributes.
-/

namespace FrameUI

/-! ### Occurrences -/

namespace Text

theorem occursIn_iff_infix (part s : List Char) : occursIn part s = true ↔ part <:+: s := by
  induction s with
  | nil => rw [occursIn, List.isEmpty_iff, List.infix_nil]
  | cons c r ih =>
    rw [occursIn, Bool.or_eq_true, List.isPrefixOf_iff_prefix, ih, List.infix_cons_iff]

theorem trim_infix (s : List Char) : trim s <:+: s := by
  have hstart : trimStart s <:+ s := List.dropWhile_suffix isBlank
  have hend : trim s <+: trimStart s := by
    obtain ⟨front, hfront⟩ := List.dropWhile_suffix (l := (trimStart s).reverse) isBlank
    refine ⟨front.reverse, ?_⟩
    rw [trim, trimEnd, ← List.reverse_append, hfront, List.reverse_reverse]
  exact hend.isInfix.trans hstart.isInfix

end Text

theorem isDangerous_iff (text : List Char) :
    isDangerous text = true ↔
      ∃ protocol ∈ dangerousProtocols, protocol.toList <:+: Text.lowered text := by
  simp only [isDangerous, List.any_eq_true, Text.occursIn_iff_infix]

theorem isDangerous_of_infix {part text : List Char} (h : part <:+: text)
    (hpart : isDangerous part = true) : isDangerous text = true := by
  obtain ⟨protocol, hin, hoccurs⟩ := (isDangerous_iff part).mp hpart
  exact (isDangerous_iff text).mpr ⟨protocol, hin, hoccurs.trans (h.map Char.toLower)⟩

open Text

namespace Markup

namespace Entity

/-! ### What decoding changes -/

/-- The characters that entities stand for. -/
def decoded : List Char := ['&', '<', '>', quote, apostrophe]

/-- How a text is decoded: some parts of it are replaced by one of these characters, the other
characters are kept. -/
inductive Decodes : List Char → List Char → Prop
  | nil : Decodes [] []
  | keep (c : Char) (s t : List Char) : Decodes s t → Decodes (c :: s) (c :: t)
  | replace (c : Char) (entity s t : List Char) :
      c ∈ decoded → Decodes s t → Decodes (entity ++ s) (c :: t)

theorem decodes_decode (s : List Char) : Decodes s (decode s) := by
  fun_induction decode s with
  | case1 r ih => exact .replace '&' ['&', 'a', 'm', 'p', ';'] r _ (by decide) ih
  | case2 r ih => exact .replace '<' ['&', 'l', 't', ';'] r _ (by decide) ih
  | case3 r ih => exact .replace '>' ['&', 'g', 't', ';'] r _ (by decide) ih
  | case4 r ih => exact .replace quote ['&', 'q', 'u', 'o', 't', ';'] r _ (by decide) ih
  | case5 r ih => exact .replace apostrophe ['&', '#', '3', '9', ';'] r _ (by decide) ih
  | case6 r ih => exact .replace apostrophe ['&', '#', 'x', '2', '7', ';'] r _ (by decide) ih
  | case7 c r _ _ _ _ _ _ ih => exact .keep c r _ ih
  | case8 => exact .nil

variable {s t part : List Char}

theorem Decodes.prefix_lowered (h : Decodes s t) (hplain : ∀ c ∈ part, c ∉ decoded)
    (hpart : part <+: Text.lowered t) : part <+: Text.lowered s := by
  have hkept : ∀ c ∈ decoded, c.toLower = c := by
    have hall : (decoded.all fun c => c.toLower == c) = true := rfl
    exact fun c hc => beq_iff_eq.mp (List.all_eq_true.mp hall c hc)
  induction h generalizing part with
  | nil => exact hpart
  | keep c s t _ ih =>
    cases part with
    | nil => exact List.nil_prefix
    | cons d part =>
      obtain ⟨hd, hrest⟩ := List.cons_prefix_cons.mp hpart
      exact List.cons_prefix_cons.mpr
        ⟨hd, ih (fun e he => hplain e (List.mem_cons_of_mem d he)) hrest⟩
  | replace c entity s t hc _ _ =>
    cases part with
    | nil => exact List.nil_prefix
    | cons d part =>
      have hd : d = c := (List.cons_prefix_cons.mp hpart).1.trans (hkept c hc)
      exact absurd (hd ▸ hc) (hplain d List.mem_cons_self)

/-- A part of the decoded text without such characters stands in the text already. -/
theorem Decodes.infix_lowered (h : Decodes s t) (hplain : ∀ c ∈ part, c ∉ decoded)
    (hpart : part <:+: Text.lowered t) :
    part <:+: Text.lowered s := by
  induction h with
  | nil => exact hpart
  | keep c s t hdecodes ih =>
    rcases List.infix_cons_iff.mp hpart with hfront | hrest
    · exact ((Decodes.keep c s t hdecodes).prefix_lowered hplain hfront).isInfix
    · exact List.infix_cons_iff.mpr (.inr (ih hrest))
  | replace c entity s t hc hdecodes ih =>
    rcases List.infix_cons_iff.mp hpart with hfront | hrest
    · exact ((Decodes.replace c entity s t hc hdecodes).prefix_lowered hplain hfront).isInfix
    · have hsuffix : Text.lowered s <:+ Text.lowered (entity ++ s) :=
        (List.suffix_append entity s).map Char.toLower
      exact (ih hrest).trans hsuffix.isInfix

/-! ### Where decoding begins to change a text -/

theorem head_decode (s : List Char) : ∃ c ∈ decoded, ∃ r, decode ('&' :: s) = c :: r := by
  generalize hamp : '&' :: s = t
  fun_cases decode t with
  | case1 r => exact ⟨'&', by decide, _, rfl⟩
  | case2 r => exact ⟨'<', by decide, _, rfl⟩
  | case3 r => exact ⟨'>', by decide, _, rfl⟩
  | case4 r => exact ⟨quote, by decide, _, rfl⟩
  | case5 r => exact ⟨apostrophe, by decide, _, rfl⟩
  | case6 r => exact ⟨apostrophe, by decide, _, rfl⟩
  | case7 c r =>
    cases hamp
    exact ⟨'&', by decide, _, rfl⟩
  | case8 => cases hamp

/-- Whether a text begins with one of the characters that entities stand for. -/
def IsMarked (s : List Char) : Prop := ∃ c ∈ decoded, ∃ r, s = c :: r

/-- A text without entities is decoded to itself. Any other text and what it is decoded to go
on with such a character after a common beginning. -/
theorem decode_cases (s : List Char) :
    decode s = s ∨ ∃ front rest rest', s = front ++ rest ∧ decode s = front ++ rest' ∧
      IsMarked rest ∧ IsMarked rest' := by
  induction s with
  | nil => exact Or.inl rfl
  | cons c s ih =>
    by_cases hc : c = '&'
    · subst hc
      exact Or.inr ⟨[], _, _, rfl, rfl, ⟨'&', by decide, s, rfl⟩, head_decode s⟩
    · rw [decode_cons_of_ne c s hc]
      rcases ih with heq | ⟨front, rest, rest', hs, hdecode, hmarked⟩
      · exact Or.inl (by rw [heq])
      · refine Or.inr ⟨c :: front, rest, rest', ?_, ?_, hmarked⟩
        · rw [hs, List.cons_append]
        · rw [hdecode, List.cons_append]

theorem IsMarked.stopsAt {s : List Char} (h : IsMarked s) (p : Char → Bool)
    (hp : (decoded.any p) = false) : StopsAt p s := by
  obtain ⟨c, hc, r, rfl⟩ := h
  exact stopsAt_cons p c r (Bool.eq_false_iff.mpr (List.any_eq_false.mp hp c hc))

/-! ### Protocols -/

theorem prefix_of_prefix_append {part body s : List Char} {c : Char} (hc : c ∉ part)
    (h : part <+: body ++ c :: s) : part <+: body := by
  have hbody : body ++ [c] <+: body ++ c :: s := ⟨s, by simp⟩
  rcases List.prefix_or_prefix_of_prefix h hbody with hpart | hbody
  · rcases List.prefix_concat_iff.mp hpart with heq | hpart
    · exact absurd (by rw [heq]; simp) hc
    · exact hpart
  · exact absurd (hbody.subset (by simp)) hc

/-- What holds a colon and no semicolon does not begin inside an entity. -/
theorem infix_of_infix_entity {part body s : List Char} (hcolon : ':' ∈ part)
    (hsemicolon : ';' ∉ part) (hbody : ':' ∉ body) (h : part <:+: body ++ ';' :: s) :
    part <:+: s := by
  induction body with
  | nil =>
    rcases List.infix_cons_iff.mp h with hfront | hrest
    · have hnil : part <+: [] := prefix_of_prefix_append hsemicolon hfront
      exact absurd (hnil.subset hcolon) List.not_mem_nil
    · exact hrest
  | cons c body ih =>
    rcases List.infix_cons_iff.mp h with hfront | hrest
    · exact absurd ((prefix_of_prefix_append hsemicolon hfront).subset hcolon) hbody
    · exact ih (fun hmem => hbody (List.mem_cons_of_mem c hmem)) hrest

theorem prefix_lowered_decode {part s : List Char} (hplain : ∀ c ∈ part, c ∉ decoded)
    (h : part <+: lowered s) : part <+: lowered (decode s) := by
  rcases decode_cases s with heq | ⟨front, rest, rest', hs, hdecode, ⟨c, hc, r, hr⟩, _⟩
  · rw [heq]
    exact h
  · have hlower : c.toLower = c := by
      have hall : (decoded.all fun c => c.toLower == c) = true := rfl
      exact beq_iff_eq.mp (List.all_eq_true.mp hall c hc)
    rw [hs, hr, lowered, List.map_append, List.map_cons, hlower] at h
    rw [hdecode, lowered, List.map_append]
    have hfront := prefix_of_prefix_append (fun hmem => hplain c hmem hc) h
    exact hfront.trans (List.prefix_append _ _)

/-- What stands in a text and is no part of its entities stands in the decoded text. -/
theorem infix_lowered_decode {part : List Char} (s : List Char) (hcolon : ':' ∈ part)
    (hsemicolon : ';' ∉ part) (hplain : ∀ c ∈ part, c ∉ decoded) (h : part <:+: lowered s) :
    part <:+: lowered (decode s) := by
  have hbehind : ∀ body r, ':' ∉ body → part <:+: body ++ ';' :: lowered r →
      (part <:+: lowered r → part <:+: lowered (decode r)) →
      ∀ c, part <:+: lowered (c :: decode r) := fun body r hbody hpart ih c =>
    List.infix_cons (ih (infix_of_infix_entity hcolon hsemicolon hbody hpart))
  fun_induction decode s with
  | case1 r ih => exact hbehind ['&', 'a', 'm', 'p'] r (by decide) h ih _
  | case2 r ih => exact hbehind ['&', 'l', 't'] r (by decide) h ih _
  | case3 r ih => exact hbehind ['&', 'g', 't'] r (by decide) h ih _
  | case4 r ih => exact hbehind ['&', 'q', 'u', 'o', 't'] r (by decide) h ih _
  | case5 r ih => exact hbehind ['&', '#', '3', '9'] r (by decide) h ih _
  | case6 r ih => exact hbehind ['&', '#', 'x', '2', '7'] r (by decide) h ih _
  | case7 c r h1 h2 h3 h4 h5 h6 ih =>
    rcases List.infix_cons_iff.mp h with hfront | hrest
    · have hdecode : decode (c :: r) = c :: decode r := decode.eq_7 c r h1 h2 h3 h4 h5 h6
      have hkept : part <+: lowered (decode (c :: r)) := prefix_lowered_decode hplain hfront
      rw [hdecode] at hkept
      exact hkept.isInfix
    · exact List.infix_cons (ih hrest)
  | case8 => exact h

end Entity

theorem not_decoded_of_mem_protocol {protocol : String} (h : protocol ∈ dangerousProtocols) :
    ∀ c ∈ protocol.toList, c ∉ Entity.decoded := by
  have hall : (dangerousProtocols.all fun protocol =>
      protocol.toList.all fun c => !Entity.decoded.contains c) = true := by decide
  intro c hc hdecoded
  have hnone := List.all_eq_true.mp (List.all_eq_true.mp hall protocol h) c hc
  rw [List.contains_iff_mem.mpr hdecoded] at hnone
  cases hnone

/-- A protocol stands in a run before decoding exactly when it does so afterwards. -/
theorem protocol_infix_decode_iff {protocol : String} (h : protocol ∈ dangerousProtocols)
    (s : List Char) :
    protocol.toList <:+: lowered (Entity.decode s) ↔ protocol.toList <:+: lowered s := by
  have hshape : ∀ protocol ∈ dangerousProtocols, ':' ∈ protocol.toList ∧
      ';' ∉ protocol.toList := by decide
  obtain ⟨hcolon, hsemicolon⟩ := hshape protocol h
  have hplain := not_decoded_of_mem_protocol h
  constructor
  · exact (Entity.decodes_decode s).infix_lowered hplain
  · exact Entity.infix_lowered_decode s hcolon hsemicolon hplain

theorem isDangerous_decode (s : List Char) :
    isDangerous (Entity.decode s) = isDangerous s := by
  rw [Bool.eq_iff_iff, isDangerous_iff, isDangerous_iff]
  exact exists_congr fun _ => and_congr_right fun h => protocol_infix_decode_iff h s

theorem isDangerous_unescape (s : String) :
    isDangerous (Entity.unescape s).toList = isDangerous s.toList := by
  rw [Entity.unescape, String.toList_ofList, isDangerous_decode]

/-! ### Values of attributes -/

/-- A handler name has no character that an entity stands for. -/
theorem canNameHandler_eq_false {value : String} {c : Char} (hmem : c ∈ value.toList)
    (hc : c ∈ Entity.decoded) : canNameHandler value = false := by
  have hnone : (Entity.decoded.any fun c => Text.isAlphanumeric c || c == '_') = false := by
    decide
  have hword : (Text.isAlphanumeric c || c == '_') = false :=
    Bool.eq_false_iff.mpr (List.any_eq_false.mp hnone c hc)
  cases hvalue : canNameHandler value with
  | false => rfl
  | true =>
    unfold canNameHandler at hvalue
    split at hvalue
    · cases hvalue
    · rename_i d r hd
      rw [hd] at hmem
      obtain ⟨hfirst, hrest⟩ := Bool.and_eq_true_iff.mp hvalue
      rcases List.mem_cons.mp hmem with rfl | hmem
      · have hwider : (Text.isAlphanumeric c || c == '_') = true := by
          rw [Text.isAlphanumeric]
          rcases Bool.or_eq_true_iff.mp hfirst with h | h
          · rw [h]
            rfl
          · rw [h, Bool.or_true]
        rw [hword] at hwider
        cases hwider
      · rw [List.all_eq_true.mp hrest c hmem] at hword
        cases hword

theorem canNameHandler_unescape (raw : String) :
    canNameHandler (Entity.unescape raw) = canNameHandler raw := by
  rcases Entity.decode_cases raw.toList with
    heq | ⟨front, rest, rest', hs, hdecode, ⟨c, hc, r, hr⟩, ⟨d, hd, r', hr'⟩⟩
  · rw [Entity.unescape, heq, String.ofList_toList]
  · have hraw : c ∈ raw.toList := by
      rw [hs, hr]
      exact List.mem_append_right front List.mem_cons_self
    have hvalue : d ∈ (Entity.unescape raw).toList := by
      rw [Entity.unescape, String.toList_ofList, hdecode, hr']
      exact List.mem_append_right front List.mem_cons_self
    rw [canNameHandler_eq_false hraw hc, canNameHandler_eq_false hvalue hd]

theorem ofFront?_unescape (raw : String) :
    Single.ofFront? (Entity.unescape raw) = Single.ofFront? raw := by
  rw [Single.ofFront?, Single.ofFront?, Entity.unescape, String.toList_ofList]
  rcases Entity.decode_cases raw.toList with
    heq | ⟨front, rest, rest', hs, hdecode, hrest, hrest'⟩
  · rw [heq]
  · have hblank : (Entity.decoded.any isBlank) = false := by decide
    have hnumeral : (Entity.decoded.any Numeral.isNumeralChar) = false := by decide
    rw [hdecode, hs,
      Single.readFront?_append _ _ (hrest'.stopsAt _ hblank) (hrest'.stopsAt _ hnumeral),
      Single.readFront?_append _ _ (hrest.stopsAt _ hblank) (hrest.stopsAt _ hnumeral)]

/-- The value of an attribute meets an expectation before decoding exactly when it does so
afterwards. -/
theorem expectedValue?_unescape (name raw : String) :
    expectedValue? name (Entity.unescape raw) = expectedValue? name raw := by
  rw [expectedValue?, expectedValue?, canNameHandler_unescape, ofFront?_unescape]

end Markup
end FrameUI
