import FrameUI.Proofs.Markup.Admissible
import FrameUI.Proofs.Markup.RoundTrip

/-!
# Escaped and raw text

Escaping a text hides what could end a value or a run, unescaping brings it back, and neither
changes which protocols a validator finds. Main statement: `Entity.unescape_undoes_escape`.
-/

namespace FrameUI.Markup

namespace Entity

/-! ### Strings -/

theorem toList_unescape (s : String) : (unescape s).toList = decode s.toList :=
  String.toList_ofList

theorem toList_escape (s : String) : (escape s).toList = encode s.toList :=
  String.toList_ofList

theorem unescape_escape_append (a b : String) : unescape (escape a ++ b) = a ++ unescape b := by
  apply String.toList_inj.1
  rw [toList_unescape, String.toList_append, toList_escape, decode_encode_append,
    String.toList_append, toList_unescape]

theorem unescape_escape (a : String) : unescape (escape a) = a := by
  have happend := unescape_escape_append a ""
  rw [String.append_empty] at happend
  rw [happend]
  exact String.append_empty

/-- The characters of which an escaped text has none. -/
def escaped : List Char := ['<', '>', quote, apostrophe]

theorem not_mem_escape (a : String) : ∀ c ∈ escaped, c ∉ (escape a).toList := by
  have hall : (escaped.all fun c => c != '&' && needsEntity c) = true := rfl
  intro c hc
  have hc := List.all_eq_true.1 hall c hc
  rw [Bool.and_eq_true, bne_iff_ne] at hc
  rw [toList_escape]
  exact not_mem_encode a.toList c hc.1 hc.2

end Entity

/-! ### Checks -/

/-- The verdict on a text, with its message and its warnings, is the one on the text unescaped. -/
theorem mapError_text_unescape (v : Validator) (r : String) :
    Checked.mapError ValidationError.message (v.text (Entity.unescape r)) =
      Checked.mapError ValidationError.message (v.text r) := by
  obtain ⟨mode⟩ := v
  rw [Validator.text, Validator.text, isDangerous_unescape]
  cases isDangerous r.toList with
  | false => rfl
  | true =>
    cases mode with
    | lenient => rfl
    | strict => rfl

/-- Unescaping undoes escaping in front of any text, so no two texts are escaped alike, and an
escaped text holds nothing that could end a value or a run. A raw text mentions the same protocols
as the text it stands for, in letters of either case, and every validator says the same of both. -/
theorem Entity.unescape_undoes_escape (a b r : String) (v : Validator) :
    (unescape (escape a ++ b) = a ++ unescape b ∧ unescape (escape a) = a ∧
        Function.Injective escape ∧ ∀ c ∈ escaped, c ∉ (escape a).toList) ∧
      (∀ protocol ∈ dangerousProtocols,
        protocol.toList <:+: Text.lowered (unescape r).toList ↔
          protocol.toList <:+: Text.lowered r.toList) ∧
      ((Validator.strict.text (unescape r)).outcome = .ok () ↔
          (Validator.strict.text r).outcome = .ok ()) ∧
        Checked.mapError ValidationError.message (v.text (unescape r)) =
          Checked.mapError ValidationError.message (v.text r) := by
  have hleft : Function.LeftInverse unescape escape := unescape_escape
  refine ⟨⟨unescape_escape_append a b, hleft a, hleft.injective, not_mem_escape a⟩, ?_, ?_, ?_⟩
  · intro protocol hprotocol
    rw [toList_unescape]
    exact protocol_infix_decode_iff hprotocol r.toList
  · rw [Validator.outcome_text_strict_iff, Validator.outcome_text_strict_iff, isDangerous_unescape]
  · exact mapError_text_unescape v r

end FrameUI.Markup
