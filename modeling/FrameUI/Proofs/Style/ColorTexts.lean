import FrameUI.Proofs.Style.Spellings
import FrameUI.Proofs.Text.Words
import Mathlib.Algebra.Ring.Nat
import Mathlib.Data.List.Basic

/-!
# The texts of colours

Which texts denote a colour, said without a reader, and which colour each of them denotes. Digits
spell a number in positional notation, with capital or small letters from ten on. A channel between
brackets may be any number, and what exceeds 255 counts as 255; it is read only if it fits into
thirty-two bits. Main statement: `ofText_eq_ok_iff`.
-/

namespace FrameUI.Style

/-! ### Positional notation -/

/-- A character is the digit for a number below the base, a letter in either case. -/
def IsDigit (base : Nat) (c : Char) (d : Nat) : Prop :=
  d < base ∧ (c = d.digitChar ∨ c = d.digitChar.toUpper)

instance (base : Nat) (c : Char) (d : Nat) : Decidable (IsDigit base c d) :=
  inferInstanceAs (Decidable (_ ∧ _))

/-- The texts of digits, each with the number that it spells. -/
inductive Spells (base : Nat) : List Char → Nat → Prop
  | nil : Spells base [] 0
  | snoc (s : List Char) (c : Char) (n d : Nat) :
      Spells base s n → IsDigit base c d → Spells base (s ++ [c]) (base * n + d)

theorem spells_nil_iff (base n : Nat) : Spells base [] n ↔ n = 0 := by
  constructor
  · generalize hs : ([] : List Char) = s
    intro h
    cases h with
    | nil => rfl
    | snoc s c n d _ _ => simp at hs
  · rintro rfl
    exact .nil

theorem spells_snoc_iff (base : Nat) (s : List Char) (c : Char) (m : Nat) :
    Spells base (s ++ [c]) m ↔
      ∃ n d, Spells base s n ∧ IsDigit base c d ∧ m = base * n + d := by
  constructor
  · generalize ht : s ++ [c] = t
    intro h
    cases h with
    | nil => simp at ht
    | snoc s' c' n d hs hd =>
      obtain ⟨rfl, hc⟩ := List.append_inj' ht rfl
      cases hc
      exact ⟨n, d, hs, hd, rfl⟩
  · rintro ⟨n, d, hs, hd, rfl⟩
    exact .snoc s c n d hs hd

theorem Spells.lt_pow {base n : Nat} {s : List Char} (h : Spells base s n) :
    n < base ^ s.length := by
  induction h with
  | nil => exact Nat.one_pos
  | snoc s c n d _ hd ih =>
    have hle : base * (n + 1) ≤ base * base ^ s.length := Nat.mul_le_mul_left base ih
    have hlt := hd.1
    rw [List.length_append, List.length_singleton, Nat.pow_succ, Nat.mul_comm (base ^ s.length)]
    rw [Nat.mul_add] at hle
    omega

/-! ### Digits -/

theorem hexDigit?_bound {c : Char} {d : Nat} (h : hexDigit? c = some d) : c.toNat < 103 := by
  unfold hexDigit? at h
  split at h
  · rename_i hdigit
    have hrange : c.isDigit = (decide (48 ≤ c.toNat) && decide (c.toNat ≤ 57)) := rfl
    simp only [hrange, Bool.and_eq_true, decide_eq_true_eq] at hdigit
    omega
  · split at h
    · rename_i hsmall
      have hrange : 97 ≤ c.toNat ∧ c.toNat ≤ 102 := hsmall
      omega
    · split at h
      · rename_i hcapital
        have hrange : 65 ≤ c.toNat ∧ c.toNat ≤ 70 := hcapital
        omega
      · cases h

theorem hexDigit?_eq_some_iff (c : Char) (d : Nat) :
    hexDigit? c = some d ↔ IsDigit 16 c d := by
  constructor
  · intro h
    have hall : ∀ n ∈ List.range 103, ∀ d ∈ hexDigit? (Char.ofNat n),
        IsDigit 16 (Char.ofNat n) d := by decide
    have hc := hall c.toNat (List.mem_range.mpr (hexDigit?_bound h))
    rw [Char.ofNat_toNat] at hc
    exact hc d h
  · rintro ⟨hd, hc⟩
    have hall : ∀ d ∈ List.range 16, hexDigit? d.digitChar = some d ∧
        hexDigit? d.digitChar.toUpper = some d := by decide
    obtain ⟨hsmall, hcapital⟩ := hall d (List.mem_range.mpr hd)
    rcases hc with rfl | rfl
    · exact hsmall
    · exact hcapital

theorem isDigit_ten_iff (c : Char) (d : Nat) :
    IsDigit 10 c d ↔ c.isDigit = true ∧ d = c.toNat - 48 := by
  constructor
  · rintro ⟨hd, hc⟩
    have hall : ∀ d ∈ List.range 10, d.digitChar.toUpper = d.digitChar ∧
        d.digitChar.isDigit = true ∧ d = d.digitChar.toNat - 48 := by decide
    obtain ⟨hupper, hdigit⟩ := hall d (List.mem_range.mpr hd)
    rw [hupper, or_self] at hc
    rw [hc]
    exact hdigit
  · rintro ⟨hdigit, rfl⟩
    have hrange : c.isDigit = (decide (48 ≤ c.toNat) && decide (c.toNat ≤ 57)) := rfl
    simp only [hrange, Bool.and_eq_true, decide_eq_true_eq] at hdigit
    have hall : ∀ n ∈ List.range 58, 48 ≤ n → IsDigit 10 (Char.ofNat n) (n - 48) := by decide
    have hc := hall c.toNat (List.mem_range.mpr (by omega)) hdigit.1
    rwa [Char.ofNat_toNat] at hc

theorem utf8Size_of_hexDigit? {c : Char} {d : Nat} (h : hexDigit? c = some d) :
    c.utf8Size = 1 := by
  have hbound := hexDigit?_bound h
  rw [Char.utf8Size_eq_one_iff, UInt32.le_iff_toNat_le]
  have hval : c.val.toNat = c.toNat := rfl
  rw [hval]
  exact Nat.le_of_lt (Nat.lt_trans hbound (by decide))

theorem hexNumber?_eq_some_iff (s : List Char) (n : Nat) :
    hexNumber? s = some n ↔ Spells 16 s n := by
  induction s using List.reverseRecOn generalizing n with
  | nil =>
    rw [spells_nil_iff]
    exact Option.some_inj.trans eq_comm
  | append_singleton s c ih =>
    have hfold : hexNumber? (s ++ [c]) =
        (hexNumber? s).bind fun n => (hexDigit? c).map fun d => 16 * n + d := by
      rw [hexNumber?, List.foldl_append]
      rfl
    rw [hfold, spells_snoc_iff, Option.bind_eq_some_iff]
    constructor
    · rintro ⟨m, hm, hmap⟩
      obtain ⟨d, hd, rfl⟩ := Option.map_eq_some_iff.mp hmap
      exact ⟨m, d, (ih m).mp hm, (hexDigit?_eq_some_iff c d).mp hd, rfl⟩
    · rintro ⟨m, d, hm, hd, rfl⟩
      refine ⟨m, (ih m).mpr hm, ?_⟩
      rw [(hexDigit?_eq_some_iff c d).mpr hd]
      rfl

theorem byteLength_append (s t : List Char) :
    byteLength (s ++ t) = byteLength s + byteLength t := by
  induction s with
  | nil => exact (Nat.zero_add _).symm
  | cons c s ih =>
    show c.utf8Size + byteLength (s ++ t) = c.utf8Size + byteLength s + byteLength t
    rw [ih, Nat.add_assoc]

/-- A hexadecimal digit takes one byte. -/
theorem Spells.byteLength_eq {s : List Char} {n : Nat} (h : Spells 16 s n) :
    byteLength s = s.length := by
  induction h with
  | nil => rfl
  | snoc s c n d _ hd ih =>
    have hsize := utf8Size_of_hexDigit? ((hexDigit?_eq_some_iff c d).mpr hd)
    have hlast : byteLength [c] = c.utf8Size := rfl
    rw [byteLength_append, hlast, ih, hsize, List.length_append, List.length_singleton]

theorem spells_ten_iff (s : List Char) (n : Nat) :
    Spells 10 s n ↔ (∀ c ∈ s, c.isDigit = true) ∧ n = Numeral.natOfDigits s := by
  induction s using List.reverseRecOn generalizing n with
  | nil =>
    rw [spells_nil_iff]
    exact (and_iff_right nofun).symm
  | append_singleton s c ih =>
    have hfold : Numeral.natOfDigits (s ++ [c]) =
        10 * Numeral.natOfDigits s + (c.toNat - 48) := by
      rw [Numeral.natOfDigits, List.foldl_append]
      rfl
    rw [spells_snoc_iff, hfold]
    simp only [ih, isDigit_ten_iff, List.forall_mem_append, List.forall_mem_singleton]
    grind

/-! ### Colours from numbers -/

namespace Rgba

theorem ofPacked_packed (c : Rgba) : ofPacked c.packed = c := by
  have hred := c.red.toNat_lt
  have hgreen := c.green.toNat_lt
  have hblue := c.blue.toNat_lt
  have halpha := c.alpha.toNat_lt
  simp only [ofPacked, packed, Nat.shiftRight_eq_div_pow]
  congr
  all_goals
    apply UInt8.toNat_inj.mp
    rw [UInt8.toNat_ofNat']
    omega

theorem packed_ofPacked (n : Nat) (h : n < 2 ^ 32) : (ofPacked n).packed = n := by
  simp only [ofPacked, packed, Nat.shiftRight_eq_div_pow, UInt8.toNat_ofNat']
  omega

theorem ofPacked_eq_iff (n : Nat) (h : n < 2 ^ 32) (c : Rgba) :
    ofPacked n = c ↔ c.packed = n := by
  constructor
  · rintro rfl
    exact packed_ofPacked n h
  · rintro rfl
    exact ofPacked_packed c

theorem rgb_eq_iff (r g b : UInt8) (c : Rgba) :
    rgb r g b = c ↔ c.channels.map UInt8.toNat = [r.toNat, g.toNat, b.toNat, 255] := by
  constructor
  · rintro rfl
    rfl
  · intro h
    simp only [channels, List.map_cons, List.map_nil, List.cons.injEq, and_true] at h
    obtain ⟨hred, hgreen, hblue, halpha⟩ := h
    cases c
    simp only [rgb, Rgba.mk.injEq]
    exact ⟨(UInt8.toNat_inj.mp hred).symm, (UInt8.toNat_inj.mp hgreen).symm,
      (UInt8.toNat_inj.mp hblue).symm, UInt8.toNat_inj.mp halpha.symm⟩

/-! ### The digits of a colour -/

theorem hexDigit?_hexChar : ∀ n < 16, hexDigit? (hexChar n) = some n := by decide

theorem hexNumber?_append_hexByte {s : List Char} {n : Nat} (h : hexNumber? s = some n)
    (b : UInt8) : hexNumber? (s ++ hexByte b) = some (256 * n + b.toNat) := by
  have hb := b.toNat_lt
  have hhigh := hexDigit?_hexChar (b.toNat / 16) (by omega)
  have hlow := hexDigit?_hexChar (b.toNat % 16) (by omega)
  rw [hexNumber?] at h ⊢
  rw [List.foldl_append, h, hexByte, List.foldl_cons, List.foldl_cons, List.foldl_nil, hhigh, hlow]
  simp only [Option.bind_some, Option.map_some, Option.some.injEq]
  omega

def digits (c : Rgba) : List Char := c.channels.flatMap hexByte

theorem toList_text (c : Rgba) : c.text.toList = '0' :: 'x' :: c.digits := String.toList_ofList

theorem length_digits (c : Rgba) : c.digits.length = 8 := rfl

theorem hexNumber?_digits (c : Rgba) : hexNumber? c.digits = some c.packed := by
  have hdigits : c.digits =
      [] ++ hexByte c.red ++ hexByte c.green ++ hexByte c.blue ++ hexByte c.alpha := by
    simp [digits, channels]
  have hred := hexNumber?_append_hexByte (s := []) (n := 0) rfl c.red
  have hgreen := hexNumber?_append_hexByte hred c.green
  have hblue := hexNumber?_append_hexByte hgreen c.blue
  rw [hdigits, hexNumber?_append_hexByte hblue c.alpha, packed]
  congr 1
  omega

theorem text_inj {c d : Rgba} (h : c.text = d.text) : c = d := by
  have hchars := congrArg String.toList h
  rw [toList_text, toList_text] at hchars
  have hdigits : c.digits = d.digits := by simpa using hchars
  have hpacked := hexNumber?_digits c
  rw [hdigits, hexNumber?_digits d, Option.some.injEq] at hpacked
  rw [← ofPacked_packed c, ← hpacked, ofPacked_packed d]

end Rgba

/-! ### The forms of a colour -/

/-- The texts that spell a number: decimal digits behind an optional plus. -/
def Unsigned (s : List Char) (n : Nat) : Prop :=
  ∃ sign digits, s = sign ++ digits ∧ (sign = [] ∨ sign = ['+']) ∧ digits ≠ [] ∧
    Spells 10 digits n

/-- The texts of a channel between brackets, a number with blanks around it. -/
def ChannelText (s : List Char) (n : Nat) : Prop :=
  ∃ before text after, s = before ++ (text ++ after) ∧ Text.AllBlank before ∧
    Text.AllBlank after ∧ Unsigned text n

/-- The texts that denote a colour, each with the colour. Without an alpha the colour is opaque.
The predicate says which numbers may stand between brackets. -/
inductive ColorText (Admits : Nat → Prop) : List Char → Rgba → Prop
  | packed (x : Char) (digits : List Char) (c : Rgba) :
      x = 'x' ∨ x = 'X' → digits.length = 8 → Spells 16 digits c.packed →
      ColorText Admits ('0' :: x :: digits) c
  | solid (mark digits : List Char) (n : Nat) (c : Rgba) :
      mark ∈ [['0', 'x'], ['0', 'X'], ['#']] → digits.length = 6 → Spells 16 digits n →
      c.packed = n * 256 + 255 → ColorText Admits (mark ++ digits) c
  | doubled (r g b : Char) (i j k : Nat) (c : Rgba) :
      IsDigit 16 r i → IsDigit 16 g j → IsDigit 16 b k →
      c.channels.map UInt8.toNat = [16 * i + i, 16 * j + j, 16 * k + k, 255] →
      ColorText Admits ['#', r, g, b] c
  | function (x y z : List Char) (i j k : Nat) (c : Rgba) :
      ChannelText x i → ChannelText y j → ChannelText z k → Admits i → Admits j → Admits k →
      c.channels.map UInt8.toNat = [min i 255, min j 255, min k 255, 255] →
      ColorText Admits (['r', 'g', 'b', '('] ++ (x ++ ',' :: (y ++ ',' :: (z ++ [')'])))) c

namespace Rgba

/-! ### Reading digits -/

theorem readHex_eq_ok_iff (input : String) (digits : List Char) (n : Nat) :
    readHex input digits = .ok n ↔ Spells 16 digits n := by
  rw [← hexNumber?_eq_some_iff]
  unfold readHex
  split
  · rename_i m hm
    rw [hm]
    simp
  · rename_i hnone
    rw [hnone]
    simp

theorem map_readHex_eq_ok_iff (input : String) (digits : List Char) (f : Nat → Rgba) (c : Rgba) :
    (readHex input digits).map f = .ok c ↔ ∃ n, Spells 16 digits n ∧ f n = c := by
  constructor
  · intro h
    cases hread : readHex input digits with
    | ok n =>
      rw [hread] at h
      exact ⟨n, (readHex_eq_ok_iff input digits n).mp hread, Except.ok.inj h⟩
    | error e =>
      rw [hread] at h
      cases h
  · rintro ⟨n, hn, rfl⟩
    rw [(readHex_eq_ok_iff input digits n).mpr hn]
    rfl

theorem ofOpaque_eq_iff (n : Nat) (h : n < 16 ^ 6) (c : Rgba) :
    ofOpaque n = c ↔ c.packed = n * 256 + 255 :=
  ofPacked_eq_iff _ (by omega) c

theorem map_ofOpaque_eq_ok_iff (input : String) (digits : List Char) (hlength : digits.length = 6)
    (c : Rgba) :
    (readHex input digits).map ofOpaque = .ok c ↔
      ∃ n, Spells 16 digits n ∧ c.packed = n * 256 + 255 := by
  rw [map_readHex_eq_ok_iff]
  refine exists_congr fun n => and_congr_right fun hspells => ofOpaque_eq_iff n ?_ c
  rw [← hlength]
  exact hspells.lt_pow

/-- The length in bytes is the one in characters wherever a number is read. -/
theorem byteLength_of_map_readHex {input : String} {digits : List Char} {f : Nat → Rgba}
    {c : Rgba} (h : (readHex input digits).map f = .ok c) : byteLength digits = digits.length := by
  obtain ⟨n, hn, _⟩ := (map_readHex_eq_ok_iff input digits f c).mp h
  exact hn.byteLength_eq

theorem readPacked_eq_ok_iff (input : String) (digits : List Char) (c : Rgba) :
    readPacked input digits = .ok c ↔
      digits.length = 8 ∧ Spells 16 digits c.packed ∨
      digits.length = 6 ∧ ∃ n, Spells 16 digits n ∧ c.packed = n * 256 + 255 := by
  unfold readPacked
  constructor
  · intro h
    split at h
    · rename_i height
      rw [byteLength_of_map_readHex h] at height
      obtain ⟨n, hn, rfl⟩ := (map_readHex_eq_ok_iff input digits ofPacked c).mp h
      have hlt := hn.lt_pow
      rw [height] at hlt
      rw [packed_ofPacked n hlt]
      exact Or.inl ⟨height, hn⟩
    · split at h
      · rename_i hsix
        rw [byteLength_of_map_readHex h] at hsix
        exact Or.inr ⟨hsix, (map_ofOpaque_eq_ok_iff input digits hsix c).mp h⟩
      · cases h
  · rintro (⟨height, hspells⟩ | ⟨hsix, n, hn, hc⟩)
    · rw [if_pos (hspells.byteLength_eq.trans height), map_readHex_eq_ok_iff]
      exact ⟨c.packed, hspells, ofPacked_packed c⟩
    · have hbytes := hn.byteLength_eq.trans hsix
      rw [if_neg (by omega), if_pos hbytes, map_ofOpaque_eq_ok_iff input digits hsix]
      exact ⟨n, hn, hc⟩

theorem toNat_doubled (n : Nat) : (doubled n).toNat = n % 16 * 17 := by
  rw [doubled, UInt8.toNat_ofNat']
  omega

theorem spells_three_iff (r g b : Char) (n : Nat) :
    Spells 16 [r, g, b] n ↔ ∃ i j k, IsDigit 16 r i ∧ IsDigit 16 g j ∧ IsDigit 16 b k ∧
      n = 16 * (16 * i + j) + k := by
  have hlast := spells_snoc_iff 16 [r, g] b n
  rw [show [r, g] ++ [b] = [r, g, b] from rfl] at hlast
  rw [hlast]
  constructor
  · rintro ⟨m, k, hm, hk, rfl⟩
    obtain ⟨l, j, hl, hj, rfl⟩ := (spells_snoc_iff 16 [r] g m).mp hm
    obtain ⟨z, i, hz, hi, rfl⟩ := (spells_snoc_iff 16 [] r l).mp hl
    rw [(spells_nil_iff 16 z).mp hz, Nat.mul_zero, Nat.zero_add]
    exact ⟨i, j, k, hi, hj, hk, rfl⟩
  · rintro ⟨i, j, k, hi, hj, hk, rfl⟩
    have hone : Spells 16 [r] i := by simpa using Spells.snoc [] r 0 i .nil hi
    exact ⟨_, k, .snoc [r] g i j hone hj, hk, rfl⟩

theorem rgb_doubled_eq_iff (i j k : Nat) (hi : i < 16) (hj : j < 16) (hk : k < 16) (c : Rgba) :
    rgb (doubled ((16 * (16 * i + j) + k) / 256)) (doubled ((16 * (16 * i + j) + k) / 16))
        (doubled (16 * (16 * i + j) + k)) = c ↔
      c.channels.map UInt8.toNat = [16 * i + i, 16 * j + j, 16 * k + k, 255] := by
  have hred : (16 * (16 * i + j) + k) / 256 % 16 * 17 = 16 * i + i := by omega
  have hgreen : (16 * (16 * i + j) + k) / 16 % 16 * 17 = 16 * j + j := by omega
  have hblue : (16 * (16 * i + j) + k) % 16 * 17 = 16 * k + k := by omega
  rw [rgb_eq_iff, toNat_doubled, toNat_doubled, toNat_doubled, hred, hgreen, hblue]

theorem readHash_eq_ok_iff (input : String) (digits : List Char) (c : Rgba) :
    readHash input digits = .ok c ↔
      (∃ r g b i j k, digits = [r, g, b] ∧ IsDigit 16 r i ∧ IsDigit 16 g j ∧ IsDigit 16 b k ∧
        c.channels.map UInt8.toNat = [16 * i + i, 16 * j + j, 16 * k + k, 255]) ∨
      digits.length = 6 ∧ ∃ n, Spells 16 digits n ∧ c.packed = n * 256 + 255 := by
  unfold readHash
  constructor
  · intro h
    split at h
    · rename_i hthree
      rw [byteLength_of_map_readHex h] at hthree
      obtain ⟨r, g, b, rfl⟩ := List.length_eq_three.mp hthree
      obtain ⟨n, hn, hc⟩ := (map_readHex_eq_ok_iff input _ _ c).mp h
      obtain ⟨i, j, k, hi, hj, hk, rfl⟩ := (spells_three_iff r g b n).mp hn
      exact Or.inl ⟨r, g, b, i, j, k, rfl, hi, hj, hk,
        (rgb_doubled_eq_iff i j k hi.1 hj.1 hk.1 c).mp hc⟩
    · split at h
      · rename_i hsix
        rw [byteLength_of_map_readHex h] at hsix
        exact Or.inr ⟨hsix, (map_ofOpaque_eq_ok_iff input digits hsix c).mp h⟩
      · cases h
  · rintro (⟨r, g, b, i, j, k, rfl, hi, hj, hk, hc⟩ | ⟨hsix, n, hn, hc⟩)
    · have hspells := (spells_three_iff r g b _).mpr ⟨i, j, k, hi, hj, hk, rfl⟩
      have hbytes : byteLength [r, g, b] = 3 := hspells.byteLength_eq
      rw [if_pos hbytes, map_readHex_eq_ok_iff]
      exact ⟨_, hspells, (rgb_doubled_eq_iff i j k hi.1 hj.1 hk.1 c).mpr hc⟩
    · have hbytes := hn.byteLength_eq.trans hsix
      rw [if_neg (by omega), if_pos hbytes, map_ofOpaque_eq_ok_iff input digits hsix]
      exact ⟨n, hn, hc⟩

/-! ### Reading channels -/

/-- What is left of a sign and digits without the sign. -/
theorem getD_dropLead?_sign (sign digits : List Char) (hsign : sign = [] ∨ sign = ['+'])
    (hdigits : ∀ c ∈ digits, c.isDigit = true) :
    (Text.dropLead? ['+'] (sign ++ digits)).getD (sign ++ digits) = digits := by
  rcases hsign with rfl | rfl
  · cases digits with
    | nil => rfl
    | cons c r =>
      have hne : '+' ≠ c := by
        rintro rfl
        exact absurd (hdigits '+' List.mem_cons_self) (by decide)
      simp [Text.dropLead?, hne]
  · rfl

theorem readChannel_eq_ok_iff (input : String) (s : List Char) (channel : UInt8) :
    readChannel input s = .ok channel ↔
      ∃ n, Unsigned s n ∧ n < 2 ^ 32 ∧ channel.toNat = min n 255 := by
  have hchannel (n : Nat) : UInt8.ofNat (min n 255) = channel ↔ channel.toNat = min n 255 := by
    rw [← UInt8.toNat_inj, UInt8.toNat_ofNat', Nat.mod_eq_of_lt (by omega)]
    exact eq_comm
  simp only [readChannel]
  constructor
  · intro h
    split at h
    · rename_i hdigits
      simp only [Bool.and_eq_true, Bool.not_eq_true', List.isEmpty_eq_false_iff,
        List.all_eq_true, decide_eq_true_eq] at hdigits
      obtain ⟨⟨hne, hall⟩, hfits⟩ := hdigits
      refine ⟨_, ?_, hfits, (hchannel _).mp (Except.ok.inj h)⟩
      cases hsign : Text.dropLead? ['+'] s with
      | none =>
        rw [hsign, Option.getD_none] at hne hall
        exact ⟨[], s, rfl, Or.inl rfl, hne, (spells_ten_iff s _).mpr ⟨hall, rfl⟩⟩
      | some digits =>
        rw [hsign, Option.getD_some] at hne hall
        exact ⟨['+'], digits, (Text.dropLead?_eq_some _ _ _).mp hsign, Or.inr rfl, hne,
          (spells_ten_iff digits _).mpr ⟨hall, rfl⟩⟩
    · cases h
  · rintro ⟨n, ⟨sign, digits, rfl, hsign, hne, hspells⟩, hfits, hc⟩
    obtain ⟨hall, rfl⟩ := (spells_ten_iff digits n).mp hspells
    rw [getD_dropLead?_sign sign digits hsign hall]
    have hsize : Numeral.natOfDigits digits < UInt32.size := hfits
    have hdigits : digits.all Char.isDigit = true := List.all_eq_true.mpr hall
    simp only [List.isEmpty_eq_false_iff.mpr hne, hdigits, hsize, decide_true, Bool.not_false,
      Bool.and_self, if_true]
    exact congrArg Except.ok ((hchannel _).mpr hc)

end Rgba

theorem trim_of_no_blank (s : List Char) (h : ∀ c ∈ s, Text.isBlank c = false) :
    Text.trim s = s := by
  have hstart : Text.trimStart s = s :=
    Text.trimStart_of_stopsAt s fun c hc => h c (List.mem_of_mem_head? hc)
  have hend : Text.StopsAt Text.isBlank s.reverse := fun c hc =>
    h c (List.mem_reverse.mp (List.mem_of_mem_head? hc))
  rw [Text.trim, hstart, Text.trimEnd, Text.dropWhile_of_stopsAt _ _ hend, List.reverse_reverse]

theorem Unsigned.char_cases {s : List Char} {n : Nat} (h : Unsigned s n) :
    ∀ c ∈ s, c = '+' ∨ c.isDigit = true := by
  obtain ⟨sign, digits, rfl, hsign, _, hspells⟩ := h
  have hall := ((spells_ten_iff digits n).mp hspells).1
  intro c hc
  rcases List.mem_append.mp hc with hc | hc
  · rcases hsign with rfl | rfl
    · cases hc
    · exact Or.inl (List.mem_singleton.mp hc)
  · exact Or.inr (hall c hc)

theorem not_blank_of_unsigned {s : List Char} {n : Nat} (h : Unsigned s n) :
    ∀ c ∈ s, Text.isBlank c = false := by
  intro c hc
  rcases h.char_cases c hc with rfl | hdigit
  · decide
  · exact Text.not_blank_of_nameChar c (nameChar_of_isDigit c hdigit)

theorem channelText_iff (s : List Char) (n : Nat) :
    ChannelText s n ↔ Unsigned (Text.trim s) n := by
  constructor
  · rintro ⟨before, text, after, rfl, hbefore, hafter, htext⟩
    rwa [Text.trim_blanks_append before _ hbefore, Text.trim_append_blanks text after hafter,
      trim_of_no_blank text (not_blank_of_unsigned htext)]
  · intro h
    obtain ⟨before, after, hbefore, hafter, hs⟩ := Text.exists_blanks_trim s
    exact ⟨before, Text.trim s, after, hs, hbefore, hafter, h⟩

theorem ChannelText.no_comma {s : List Char} {n : Nat} (h : ChannelText s n) : ',' ∉ s := by
  intro hmem
  rcases Text.mem_trim_or_blank hmem with hblank | htrim
  · exact absurd hblank (by decide)
  · rcases ((channelText_iff s n).mp h).char_cases ',' htrim with hplus | hdigit
    · exact absurd hplus (by decide)
    · exact absurd hdigit (by decide)

/-! ### Reading between brackets -/

theorem splitOn_eq (c : Char) (s : List Char) : Text.splitOn (· == c) s = s.splitOn c := by
  induction s with
  | nil => rfl
  | cons d s ih =>
    rw [List.splitOn] at ih
    rw [Text.splitOn, List.splitOn, List.splitOnP_cons_eq_if_modifyHead, ← ih]
    split
    · rfl
    · cases hs : Text.splitOn (· == c) s with
      | nil => exact absurd hs (Text.splitOn_ne_nil _ s)
      | cons part parts => rfl

/-- Three parts are what two commas leave. -/
theorem eq_of_splitOn_three {c : Char} {s x y z : List Char}
    (h : Text.splitOn (· == c) s = [x, y, z]) : s = x ++ c :: (y ++ c :: z) := by
  rw [splitOn_eq] at h
  have hs : [c].intercalate (s.splitOn c) = s := List.intercalate_splitOn c
  rw [h] at hs
  rw [← hs]
  simp [List.intercalate]

theorem splitOn_three (c : Char) (x y z : List Char) (hx : c ∉ x) (hy : c ∉ y) (hz : c ∉ z) :
    Text.splitOn (· == c) (x ++ c :: (y ++ c :: z)) = [x, y, z] := by
  have hplain (s : List Char) (hs : c ∉ s) : Text.splitOn (· == c) s = [s] :=
    Text.splitOn_of_none _ s fun d hd => beq_eq_false_iff_ne.mpr (ne_of_mem_of_not_mem hd hs)
  have hc : (c == c) = true := beq_self_eq_true c
  rw [Text.splitOn_append (· == c) x _ c hc, Text.splitOn_append (· == c) y z c hc, hplain x hx,
    hplain y hy, hplain z hz]
  rfl

namespace Rgba

theorem readFunction_eq_ok_iff (input : String) (s : List Char) (c : Rgba) :
    readFunction input s = .ok c ↔
      ∃ x y z i j k, s = x ++ ',' :: (y ++ ',' :: (z ++ [')'])) ∧
        ChannelText x i ∧ ChannelText y j ∧ ChannelText z k ∧
        i < 2 ^ 32 ∧ j < 2 ^ 32 ∧ k < 2 ^ 32 ∧
        c.channels.map UInt8.toNat = [min i 255, min j 255, min k 255, 255] := by
  unfold readFunction
  constructor
  · intro h
    split at h
    · rename_i hlast
      obtain ⟨content, rfl⟩ := List.getLast?_eq_some_iff.mp hlast
      rw [List.dropLast_concat] at h
      split at h
      · rename_i r g b hparts
        obtain ⟨x, rest, hsplit, rfl, hrest⟩ := List.map_eq_cons_iff.mp hparts
        obtain ⟨y, last, rfl, rfl, hlast⟩ := List.map_eq_cons_iff.mp hrest
        obtain ⟨z, others, rfl, rfl, hothers⟩ := List.map_eq_cons_iff.mp hlast
        rw [List.map_eq_nil_iff.mp hothers] at hsplit
        obtain ⟨red, hred, h⟩ := exists_of_bind_ok h
        obtain ⟨green, hgreen, h⟩ := exists_of_bind_ok h
        obtain ⟨blue, hblue, h⟩ := exists_of_bind_ok h
        obtain ⟨i, hx, hi, hredNat⟩ := (readChannel_eq_ok_iff _ _ _).mp hred
        obtain ⟨j, hy, hj, hgreenNat⟩ := (readChannel_eq_ok_iff _ _ _).mp hgreen
        obtain ⟨k, hz, hk, hblueNat⟩ := (readChannel_eq_ok_iff _ _ _).mp hblue
        refine ⟨x, y, z, i, j, k, ?_, (channelText_iff x i).mpr hx, (channelText_iff y j).mpr hy,
          (channelText_iff z k).mpr hz, hi, hj, hk, ?_⟩
        · rw [eq_of_splitOn_three hsplit]
          simp
        · rw [(rgb_eq_iff red green blue c).mp (Except.ok.inj h), hredNat, hgreenNat, hblueNat]
      · cases h
    · cases h
  · rintro ⟨x, y, z, i, j, k, rfl, hx, hy, hz, hi, hj, hk, hc⟩
    have hcontent : x ++ ',' :: (y ++ ',' :: (z ++ [')'])) =
        (x ++ ',' :: (y ++ ',' :: z)) ++ [')'] := by simp
    have htoNat (n : Nat) : (UInt8.ofNat (min n 255)).toNat = min n 255 := by
      rw [UInt8.toNat_ofNat', Nat.mod_eq_of_lt (by omega)]
    have hread (s : List Char) (n : Nat) (hs : ChannelText s n) (hn : n < 2 ^ 32) :
        readChannel input (Text.trim s) = .ok (.ofNat (min n 255)) :=
      (readChannel_eq_ok_iff _ _ _).mpr ⟨n, (channelText_iff s n).mp hs, hn, htoNat n⟩
    rw [hcontent, if_pos List.getLast?_concat, List.dropLast_concat,
      splitOn_three ',' x y z hx.no_comma hy.no_comma hz.no_comma]
    simp only [List.map_cons, List.map_nil, hread x i hx hi, hread y j hy hj, hread z k hz hk]
    refine congrArg Except.ok ((rgb_eq_iff _ _ _ c).mpr ?_)
    rw [htoNat, htoNat, htoNat]
    exact hc

/-- Which texts are colours, blanks around them aside, and which colours they are: `0x` or `0X`
with eight or six hexadecimal digits, `#` with six or three, or `rgb` with three decimal numbers
below `2 ^ 32` in brackets. -/
theorem ofText_eq_ok_iff (input : String) (c : Rgba) :
    ofText input = .ok c ↔ ColorText (· < 2 ^ 32) (Text.trim input.toList) c := by
  unfold ofText
  constructor
  · intro h
    split at h
    · rename_i digits hform
      rw [hform]
      rcases (readPacked_eq_ok_iff input digits c).mp h with ⟨hlength, hc⟩ | ⟨hlength, n, hn, hc⟩
      · exact .packed 'x' digits c (Or.inl rfl) hlength hc
      · exact .solid ['0', 'x'] digits n c (by simp) hlength hn hc
    · rename_i digits hform
      rw [hform]
      rcases (readPacked_eq_ok_iff input digits c).mp h with ⟨hlength, hc⟩ | ⟨hlength, n, hn, hc⟩
      · exact .packed 'X' digits c (Or.inr rfl) hlength hc
      · exact .solid ['0', 'X'] digits n c (by simp) hlength hn hc
    · rename_i digits hform
      rw [hform]
      rcases (readHash_eq_ok_iff input digits c).mp h with
        ⟨r, g, b, i, j, k, rfl, hi, hj, hk, hc⟩ | ⟨hlength, n, hn, hc⟩
      · exact .doubled r g b i j k c hi hj hk hc
      · exact .solid ['#'] digits n c (by simp) hlength hn hc
    · rename_i rest hform
      rw [hform]
      obtain ⟨x, y, z, i, j, k, rfl, hx, hy, hz, hi, hj, hk, hc⟩ :=
        (readFunction_eq_ok_iff input rest c).mp h
      exact .function x y z i j k c hx hy hz hi hj hk hc
    · cases h
  · generalize Text.trim input.toList = t
    intro h
    cases h with
    | packed x digits c hx hlength hc =>
      have hread := (readPacked_eq_ok_iff input digits c).mpr (Or.inl ⟨hlength, hc⟩)
      rcases hx with rfl | rfl
      · exact hread
      · exact hread
    | solid mark digits n c hmark hlength hn hc =>
      simp only [List.mem_cons, List.not_mem_nil, or_false] at hmark
      rcases hmark with rfl | rfl | rfl
      · exact (readPacked_eq_ok_iff input digits c).mpr (Or.inr ⟨hlength, n, hn, hc⟩)
      · exact (readPacked_eq_ok_iff input digits c).mpr (Or.inr ⟨hlength, n, hn, hc⟩)
      · exact (readHash_eq_ok_iff input digits c).mpr (Or.inr ⟨hlength, n, hn, hc⟩)
    | doubled r g b i j k c hi hj hk hc =>
      exact (readHash_eq_ok_iff input _ c).mpr
        (Or.inl ⟨r, g, b, i, j, k, rfl, hi, hj, hk, hc⟩)
    | function x y z i j k c hx hy hz hi hj hk hc =>
      exact (readFunction_eq_ok_iff input _ c).mpr
        ⟨x, y, z, i, j, k, rfl, hx, hy, hz, hi, hj, hk, hc⟩

end Rgba

/-- A channel that does not fit is not taken for 255. -/
theorem exists_colorText_not_read : ∃ (input : String) (c : Rgba),
    ColorText (fun _ => True) (Text.trim input.toList) c ∧ Rgba.ofText input ≠ .ok c := by
  have hchannel (digits : List Char) (hne : digits ≠ []) (hdigits : digits.all Char.isDigit) :
      ChannelText digits (Numeral.natOfDigits digits) :=
    ⟨[], digits, [], (List.append_nil digits).symm, Text.allBlank_nil, Text.allBlank_nil, [],
      digits, rfl, Or.inl rfl, hne, (spells_ten_iff _ _).mpr ⟨List.all_eq_true.mp hdigits, rfl⟩⟩
  refine ⟨"rgb(4294967296,0,0)", .rgb 255 0 0, ?_, ?_⟩
  · exact .function "4294967296".toList ['0'] ['0'] _ _ _ (.rgb 255 0 0)
      (hchannel _ (by decide) rfl) (hchannel _ (by decide) rfl) (hchannel _ (by decide) rfl)
      trivial trivial trivial (by decide)
  · intro h
    have hnone : (Rgba.ofText "rgb(4294967296,0,0)").toOption = none := by decide
    rw [h] at hnone
    cases hnone

end FrameUI.Style
