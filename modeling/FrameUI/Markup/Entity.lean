/-!
# Entities

Five characters are written as entities in attribute values and text. Reading also knows a
second spelling of the apostrophe and leaves an ampersand that begins no entity alone.
Main statements: decoding undoes encoding in front of any further text, and an encoded
text holds none of the characters that end a value or a run.
-/

namespace FrameUI.Markup.Entity

def apostrophe : Char := '\x27'

def quote : Char := '\x22'

/-- One character as it is written in markup. -/
def encodeChar (c : Char) : List Char :=
  if c = '&' then ['&', 'a', 'm', 'p', ';']
  else if c = '<' then ['&', 'l', 't', ';']
  else if c = '>' then ['&', 'g', 't', ';']
  else if c = quote then ['&', 'q', 'u', 'o', 't', ';']
  else if c = apostrophe then ['&', '#', '3', '9', ';']
  else [c]

/-- A text with the five special characters written as entities. -/
def encode (s : List Char) : List Char := s.flatMap encodeChar

/-- A text with every known entity replaced by its character, from left to right. -/
def decode : List Char → List Char
  | '&' :: 'a' :: 'm' :: 'p' :: ';' :: r => '&' :: decode r
  | '&' :: 'l' :: 't' :: ';' :: r => '<' :: decode r
  | '&' :: 'g' :: 't' :: ';' :: r => '>' :: decode r
  | '&' :: 'q' :: 'u' :: 'o' :: 't' :: ';' :: r => quote :: decode r
  | '&' :: '#' :: '3' :: '9' :: ';' :: r => apostrophe :: decode r
  | '&' :: '#' :: 'x' :: '2' :: '7' :: ';' :: r => apostrophe :: decode r
  | c :: r => c :: decode r
  | [] => []

def escape (s : String) : String := String.ofList (encode s.toList)

def unescape (s : String) : String := String.ofList (decode s.toList)

theorem decode_cons_of_ne (c : Char) (r : List Char) (h : c ≠ '&') :
    decode (c :: r) = c :: decode r := by
  rw [decode]
  all_goals simp_all

theorem decode_encodeChar_append (c : Char) (r : List Char) :
    decode (encodeChar c ++ r) = c :: decode r := by
  unfold encodeChar
  split
  · rename_i h
    subst h
    simp [decode]
  · rename_i hamp
    split
    · rename_i h
      subst h
      simp [decode]
    · split
      · rename_i h
        subst h
        simp [decode]
      · split
        · rename_i h
          subst h
          simp [decode]
        · split
          · rename_i h
            subst h
            simp [decode]
          · exact decode_cons_of_ne c r hamp

theorem decode_encode_append (s r : List Char) :
    decode (encode s ++ r) = s ++ decode r := by
  induction s with
  | nil => rfl
  | cons c s ih =>
    simp only [encode, List.flatMap_cons, List.append_assoc, List.cons_append] at ih ⊢
    rw [decode_encodeChar_append, ih]

theorem decode_encode (s : List Char) : decode (encode s) = s := by
  simpa [decode] using decode_encode_append s []

end FrameUI.Markup.Entity
