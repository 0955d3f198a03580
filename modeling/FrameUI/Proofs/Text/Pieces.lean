import FrameUI.Proofs.Text.Spans
import FrameUI.Text.Quoted

/-!
# Pieces of a line

A list of quoted texts and of plain ones, with a comma between any two, can be taken apart again.
Main statements: a quoted text says where it ends (`unquote_append`), and the line shows what the
pieces are (`Piece.listed_append_inj`).
-/

namespace FrameUI.Text

/-! ### Quoted texts -/

/-- The character that is written with a backslash in front. -/
def unescapedChar (c : Char) : Char :=
  if c = 'n' then '\n' else if c = 'r' then '\r' else if c = 't' then '\t' else c

/-- Reads a text up to the quote that closes it, and gives what is left. -/
def unquote : List Char → Option (List Char × List Char)
  | [] => none
  | '\\' :: [] => none
  | '\\' :: c :: rest => (unquote rest).map fun read => (unescapedChar c :: read.1, read.2)
  | '\x22' :: rest => some ([], rest)
  | c :: rest => (unquote rest).map fun read => (c :: read.1, read.2)

theorem unquote_escaped (c : Char) (rest : List Char) :
    unquote ('\\' :: c :: rest) =
      (unquote rest).map fun read => (unescapedChar c :: read.1, read.2) := rfl

theorem unquote_cons (c : Char) (rest : List Char) (hslash : c ≠ '\\') (hquote : c ≠ '\x22') :
    unquote (c :: rest) = (unquote rest).map fun read => (c :: read.1, read.2) := by
  rw [unquote.eq_5 c rest]
  · exact fun h => absurd h hslash
  · exact fun _ _ h => absurd h hslash
  · exact hquote

theorem unquote_quotedChar (c : Char) (rest : List Char) :
    unquote (quotedChar c ++ rest) = (unquote rest).map fun read => (c :: read.1, read.2) := by
  unfold quotedChar
  by_cases hquote : c = '\x22'
  · rw [if_pos hquote, hquote]
    exact unquote_escaped _ rest
  by_cases hslash : c = '\\'
  · rw [if_neg hquote, if_pos hslash, hslash]
    exact unquote_escaped _ rest
  rw [if_neg hquote, if_neg hslash]
  by_cases hnewline : c = '\n'
  · rw [if_pos hnewline, hnewline]
    exact unquote_escaped _ rest
  by_cases hreturn : c = '\r'
  · rw [if_neg hnewline, if_pos hreturn, hreturn]
    exact unquote_escaped _ rest
  by_cases htab : c = '\t'
  · rw [if_neg hnewline, if_neg hreturn, if_pos htab, htab]
    exact unquote_escaped _ rest
  · rw [if_neg hnewline, if_neg hreturn, if_neg htab]
    exact unquote_cons c rest hslash hquote

/-- A quoted text is read back up to its closing quote, whatever follows. -/
theorem unquote_append (s rest : List Char) :
    unquote (s.flatMap quotedChar ++ '\x22' :: rest) = some (s, rest) := by
  induction s with
  | nil => rfl
  | cons c s ih =>
    rw [List.flatMap_cons, List.append_assoc, unquote_quotedChar, ih]
    rfl

theorem toList_quoted (s : String) :
    (quoted s).toList = '\x22' :: (s.toList.flatMap quotedChar ++ ['\x22']) := by
  rw [quoted, String.toList_ofList]

theorem quoted_append_inj {s t : String} {rest more : List Char}
    (h : (quoted s).toList ++ rest = (quoted t).toList ++ more) : s = t ∧ rest = more := by
  rw [toList_quoted, toList_quoted, List.cons_append, List.cons_append, List.append_assoc,
    List.append_assoc] at h
  have hread := congrArg unquote (List.cons.inj h).2
  rw [List.singleton_append, List.singleton_append, unquote_append, unquote_append] at hread
  obtain ⟨hchars, hrest⟩ := Prod.mk.inj (Option.some.inj hread)
  exact ⟨String.toList_inj.1 hchars, hrest⟩

/-! ### Pieces -/

inductive Piece where
  | quoted (s : String)
  | plain (s : String)
deriving DecidableEq

/-- Whether a character may stand in a plain piece: it is no mark of a list and ends no line. -/
def isPlainChar (c : Char) : Bool :=
  c != ',' && c != ')' && c != '\x22' && c != '\n'

namespace Piece

def text : Piece → List Char
  | quoted s => (Text.quoted s).toList
  | plain s => s.toList

def IsClear : Piece → Prop
  | quoted _ => True
  | plain s => ∀ c ∈ s.toList, isPlainChar c = true

theorem not_newline_mem_text (p : Piece) (h : p.IsClear) : '\n' ∉ p.text := by
  cases p with
  | quoted s => exact quoted_no_newline s
  | plain s => exact fun hmem => absurd (h '\n' hmem) (by decide)

/-- A plain piece does not begin like a quoted one. -/
theorem plain_append_ne_quoted {s t : String} {c : Char} {rest more : List Char}
    (hs : ∀ c ∈ s.toList, isPlainChar c = true) (hc : c ≠ '\x22') :
    (plain s).text ++ c :: rest ≠ (quoted t).text ++ more := by
  intro h
  rw [text, text, toList_quoted] at h
  cases hchars : s.toList with
  | nil =>
    rw [hchars] at h
    exact hc (List.cons.inj h).1
  | cons first chars =>
    rw [hchars] at h hs
    have hfirst := hs first List.mem_cons_self
    rw [(List.cons.inj h).1] at hfirst
    exact absurd hfirst (by decide)

theorem text_append_inj {p q : Piece} (hp : p.IsClear) (hq : q.IsClear) {c d : Char}
    {rest more : List Char} (hc : c = ',' ∨ c = ')') (hd : d = ',' ∨ d = ')')
    (h : p.text ++ c :: rest = q.text ++ d :: more) : p = q ∧ c :: rest = d :: more := by
  have hmark : ∀ x : Char, x = ',' ∨ x = ')' → isPlainChar x = false ∧ x ≠ '\x22' := by
    rintro x (rfl | rfl)
    · exact ⟨rfl, by decide⟩
    · exact ⟨rfl, by decide⟩
  cases p with
  | quoted s =>
    cases q with
    | quoted t =>
      obtain ⟨rfl, hrest⟩ := quoted_append_inj h
      exact ⟨rfl, hrest⟩
    | plain t => exact absurd h.symm (plain_append_ne_quoted hq (hmark d hd).2)
  | plain s =>
    cases q with
    | quoted t => exact absurd h (plain_append_ne_quoted hp (hmark c hc).2)
    | plain t =>
      obtain ⟨hchars, hrest⟩ := append_inj_of_stopsAt isPlainChar hp hq
        (stopsAt_cons _ c rest (hmark c hc).1) (stopsAt_cons _ d more (hmark d hd).1) h
      exact ⟨congrArg plain (String.toList_inj.1 hchars), hrest⟩

/-! ### Lists of pieces -/

/-- Pieces with commas between them, up to the parenthesis that closes the list. -/
def listed : List Piece → List Char
  | [] => [')']
  | [p] => p.text ++ [')']
  | p :: q :: ps => p.text ++ ',' :: ' ' :: listed (q :: ps)

theorem listed_append_inj (ps qs : List Piece) (hlength : ps.length = qs.length)
    (hps : ∀ p ∈ ps, p.IsClear) (hqs : ∀ q ∈ qs, q.IsClear) (rest more : List Char)
    (h : listed ps ++ rest = listed qs ++ more) : ps = qs := by
  induction ps using listed.induct generalizing qs with
  | case1 => exact (List.length_eq_zero_iff.1 hlength.symm).symm
  | case2 p =>
    obtain ⟨q, rfl⟩ := List.length_eq_one_iff.1 hlength.symm
    rw [listed, listed, List.append_assoc, List.append_assoc] at h
    obtain ⟨rfl, _⟩ := text_append_inj (hps p List.mem_cons_self) (hqs q List.mem_cons_self)
      (.inr rfl) (.inr rfl) h
    rfl
  | case3 p p' ps ih =>
    match qs, hlength with
    | q :: q' :: qs, hlength =>
      obtain ⟨hp, hps'⟩ := List.forall_mem_cons.1 hps
      obtain ⟨hq, hqs'⟩ := List.forall_mem_cons.1 hqs
      rw [listed, listed, List.append_assoc, List.append_assoc] at h
      obtain ⟨rfl, hrest⟩ := text_append_inj hp hq (.inl rfl) (.inl rfl) h
      have htail := ih (q' :: qs) (Nat.succ.inj hlength) hps' hqs'
        (List.cons.inj (List.cons.inj hrest).2).2
      rw [htail]

theorem not_newline_mem_listed (ps : List Piece) (h : ∀ p ∈ ps, p.IsClear) :
    '\n' ∉ listed ps := by
  induction ps using listed.induct with
  | case1 => decide
  | case2 p =>
    rw [listed, List.mem_append, not_or]
    exact ⟨p.not_newline_mem_text (h p List.mem_cons_self), by decide⟩
  | case3 p q ps ih =>
    obtain ⟨hp, hrest⟩ := List.forall_mem_cons.1 h
    rw [listed, List.mem_append, List.mem_cons, List.mem_cons, not_or, not_or, not_or]
    exact ⟨p.not_newline_mem_text hp, by decide, by decide, ih hrest⟩

end Piece
end FrameUI.Text
