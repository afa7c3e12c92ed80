import DepthGauge.Text.Utf8
import Mathlib.Algebra.Group.Nat.Defs
import Mathlib.Order.Bounds.Basic

/-!
# Well-formed UTF-8

Which bytes are the encoding of a text, said without a decoder and without the bounds that one
checks. A number can be spelled in several widths; well-formed bytes spell each number in the least
one, and spell no surrogate and no number that is too large.

## Main definitions

* `Spells bytes n`: the bytes follow the pattern of one of the four widths for the number `n`.
* `IsWellFormed bytes`: the bytes fall into pieces that are well-formed characters.
* `IsCut part`: the bytes are the start of some character, and not all of it.

## Main results

* `isWellFormed_iff`: the well-formed bytes are those that encode a text.
* `prefix_of_encode_prefix`, `encode_injective`: no two texts have the same bytes.
* `isGreatest_wellFormed`: where the longest well-formed part of some bytes ends.
-/

namespace DepthGauge.Utf8

open String (utf8EncodeChar)

/-! ## Numbers of characters -/

/-- The numbers that characters have. -/
def IsScalar (n : Nat) : Prop := n ≤ 0x10FFFF ∧ ¬ (0xD800 ≤ n ∧ n ≤ 0xDFFF)

/-- The number of bytes of the character with a number. -/
def width (n : Nat) : Nat :=
  if n < 0x80 then 1 else if n < 0x800 then 2 else if n < 0x10000 then 3 else 4

theorem isScalar_toNat (c : Char) : IsScalar c.toNat := by
  have h := c.valid
  simp only [UInt32.isValidChar, Nat.isValidChar, Char.toNat_val] at h
  grind [IsScalar]

theorem IsScalar.toNat_ofNat {n : Nat} (h : IsScalar n) : (Char.ofNat n).toNat = n := by
  have hvalid : n.isValidChar := by grind [IsScalar]
  rw [Char.ofNat, dif_pos hvalid]
  rfl

theorem utf8Size_eq_width (c : Char) : c.utf8Size = width c.toNat := by
  simp only [Char.utf8Size, UInt32.le_iff_toNat_le, Char.toNat_val]
  grind [width]

/-- From the second byte of a character on, all bits are free. -/
theorem IsScalar.of_div_eq {m n k : Nat} (h : IsScalar n) (hk : k + 2 ≤ width n)
    (hdiv : m / 64 ^ k = n / 64 ^ k) : IsScalar m ∧ width m = width n := by
  have hcases : k = 0 ∨ k = 1 ∨ k = 2 := by grind [width]
  rcases hcases with rfl | rfl | rfl
  · obtain rfl : m = n := by simpa using hdiv
    exact ⟨h, rfl⟩
  · have hdiv : m / 64 = n / 64 := by simpa using hdiv
    have hlow : 0x800 ≤ n := by grind [width]
    grind [IsScalar, width]
  · have hdiv : m / 4096 = n / 4096 := by simpa using hdiv
    have hlow : 0x10000 ≤ n := by grind [width]
    grind [IsScalar, width]

/-! ## Well-formed bytes -/

/-- The patterns of the four widths. Each holds the numbers below a bound of its own. -/
inductive Spells : List UInt8 → Nat → Prop where
  | one {n : Nat} (h : n < 0x80) : Spells [.ofNat n] n
  | two {n : Nat} (h : n < 0x800) : Spells [.ofNat (n / 64 + 0xC0), .ofNat (n % 64 + 0x80)] n
  | three {n : Nat} (h : n < 0x10000) :
    Spells [.ofNat (n / 4096 + 0xE0), .ofNat (n / 64 % 64 + 0x80), .ofNat (n % 64 + 0x80)] n
  | four {n : Nat} (h : n < 0x200000) :
    Spells [.ofNat (n / 262144 + 0xF0), .ofNat (n / 4096 % 64 + 0x80),
      .ofNat (n / 64 % 64 + 0x80), .ofNat (n % 64 + 0x80)] n

/-- The bytes spell a number, and no fewer bytes do. The number is not above the greatest one that
a character has, and not a surrogate. -/
def IsWellFormedChar (bytes : List UInt8) : Prop :=
  ∃ n, Spells bytes n ∧ (∀ others, Spells others n → bytes.length ≤ others.length) ∧
    n ≤ 0x10FFFF ∧ ¬ (0xD800 ≤ n ∧ n ≤ 0xDFFF)

def IsWellFormed (bytes : List UInt8) : Prop :=
  ∃ pieces : List (List UInt8), (∀ piece ∈ pieces, IsWellFormedChar piece) ∧ pieces.flatten = bytes

theorem utf8EncodeChar_eq_singleton {c : Char} (h : c.toNat < 0x80) :
    utf8EncodeChar c = [.ofNat c.toNat] := by
  simp only [utf8EncodeChar, Char.toNat_val]
  rw [if_pos (by omega)]

theorem spells_utf8EncodeChar (c : Char) : Spells (utf8EncodeChar c) c.toNat := by
  have hle := (isScalar_toNat c).1
  simp only [utf8EncodeChar, Char.toNat_val]
  split
  · exact .one (by omega)
  split
  · rw [Nat.mod_eq_of_lt (by omega : c.toNat / 64 < 32)]
    exact .two (by omega)
  split
  · rw [Nat.mod_eq_of_lt (by omega : c.toNat / 4096 < 16)]
    exact .three (by omega)
  · rw [Nat.mod_eq_of_lt (by omega : c.toNat / 262144 < 8)]
    exact .four (by omega)

theorem Spells.width_le {bytes : List UInt8} {n : Nat} (h : Spells bytes n) :
    width n ≤ bytes.length := by
  cases h <;> grind [width]

/-- Two spellings of a number in the same width are the same. -/
theorem Spells.eq_of_length_eq {a b : List UInt8} {n : Nat} (ha : Spells a n) (hb : Spells b n)
    (h : a.length = b.length) : a = b := by
  cases ha <;> cases hb <;> first | rfl | simp at h

theorem isWellFormedChar_iff {bytes : List UInt8} :
    IsWellFormedChar bytes ↔ ∃ c, utf8EncodeChar c = bytes := by
  constructor
  · rintro ⟨n, hspells, hleast, hscalar⟩
    have hn : (Char.ofNat n).toNat = n := IsScalar.toNat_ofNat hscalar
    have hown : Spells (utf8EncodeChar (Char.ofNat n)) n := by
      simpa [hn] using spells_utf8EncodeChar (Char.ofNat n)
    have hlen : (utf8EncodeChar (Char.ofNat n)).length = width n := by
      rw [String.length_utf8EncodeChar, utf8Size_eq_width, hn]
    have hge := hspells.width_le
    have hle := hleast _ hown
    exact ⟨Char.ofNat n, hown.eq_of_length_eq hspells (by omega)⟩
  · rintro ⟨c, rfl⟩
    refine ⟨c.toNat, spells_utf8EncodeChar c, ?_, isScalar_toNat c⟩
    intro others hothers
    rw [String.length_utf8EncodeChar, utf8Size_eq_width]
    exact hothers.width_le

theorem isWellFormed_iff {bytes : List UInt8} :
    IsWellFormed bytes ↔ ∃ text, encode text = bytes := by
  constructor
  · rintro ⟨pieces, hpieces, rfl⟩
    induction pieces with
    | nil => exact ⟨[], rfl⟩
    | cons piece pieces ih =>
      obtain ⟨text, htext⟩ := ih fun p hp => hpieces p (List.mem_cons_of_mem piece hp)
      obtain ⟨c, rfl⟩ := isWellFormedChar_iff.1 (hpieces piece List.mem_cons_self)
      exact ⟨c :: text, by simp [htext]⟩
  · rintro ⟨text, rfl⟩
    refine ⟨text.map utf8EncodeChar, ?_, rfl⟩
    intro piece hpiece
    obtain ⟨c, -, rfl⟩ := List.mem_map.1 hpiece
    exact isWellFormedChar_iff.2 ⟨c, rfl⟩

/-! ## Bytes from the left -/

/-- The bytes of a character tell where they end. -/
theorem eq_of_utf8EncodeChar_append {c d : Char} {a b : List UInt8}
    (h : utf8EncodeChar c ++ a = utf8EncodeChar d ++ b) : c = d ∧ a = b := by
  have hc : c = d := by
    have hfirst (c : Char) (a : List UInt8) :
        (utf8EncodeChar c ++ a).toByteArray.utf8DecodeChar? 0 = some c := by
      rw [List.toByteArray_append]
      exact ByteArray.utf8DecodeChar?_utf8EncodeChar_append
    have hcd := hfirst c a
    rw [h, hfirst] at hcd
    exact (Option.some.inj hcd).symm
  subst hc
  exact ⟨rfl, List.append_cancel_left h⟩

theorem eq_of_utf8EncodeChar_prefix {c d : Char} (h : utf8EncodeChar c <+: utf8EncodeChar d) :
    c = d := by
  obtain ⟨a, ha⟩ := h
  exact (eq_of_utf8EncodeChar_append (b := []) (by simpa using ha)).1

/-- The bytes are the start of a character, and neither none nor all of it. -/
def IsCut (part : List UInt8) : Prop :=
  part ≠ [] ∧ ∃ c, part <+: utf8EncodeChar c ∧ part ≠ utf8EncodeChar c

/-- No character stands at the start of the bytes. -/
def IsBlocked (bytes : List UInt8) : Prop := ∀ c, ¬ utf8EncodeChar c <+: bytes

theorem isBlocked_nil : IsBlocked [] := by
  intro c h
  exact String.utf8EncodeChar_ne_nil (List.prefix_nil.1 h)

theorem IsCut.isBlocked {part : List UInt8} (h : IsCut part) : IsBlocked part := by
  obtain ⟨-, c, hpre, hne⟩ := h
  intro d hd
  obtain rfl := eq_of_utf8EncodeChar_prefix (hd.trans hpre)
  exact hne (hpre.eq_of_length_le hd.length_le)

/-- Characters that stand in front of blocked bytes are part of the text there. -/
theorem prefix_of_encode_prefix {a b : List Char} {rest : List UInt8} (hrest : IsBlocked rest)
    (h : encode a <+: encode b ++ rest) : a <+: b := by
  induction a generalizing b with
  | nil => exact List.nil_prefix
  | cons c a ih =>
    obtain ⟨more, hmore⟩ := h
    cases b with
    | nil => exact absurd ⟨encode a ++ more, by simpa using hmore⟩ (hrest c)
    | cons d b =>
      simp only [encode_cons, List.append_assoc] at hmore
      obtain ⟨rfl, htail⟩ := eq_of_utf8EncodeChar_append hmore
      exact (List.prefix_cons_inj c).2 (ih ⟨more, htail⟩)

theorem encode_injective {a b : List Char} (h : encode a = encode b) : a = b := by
  have hab : a <+: b := prefix_of_encode_prefix isBlocked_nil (by simp [h])
  have hba : b <+: a := prefix_of_encode_prefix isBlocked_nil (by simp [h])
  exact hab.eq_of_length_le hba.length_le

/-- A text in front of blocked bytes is the longest one. -/
theorem isGreatest_wellFormed (text : List Char) {rest : List UInt8} (hrest : IsBlocked rest) :
    IsGreatest {n | n ≤ (encode text ++ rest).length ∧ IsWellFormed ((encode text ++ rest).take n)}
      (encode text).length := by
  refine ⟨⟨by simp, isWellFormed_iff.2 ⟨text, by simp⟩⟩, ?_⟩
  rintro n ⟨hn, hwf⟩
  obtain ⟨other, hother⟩ := isWellFormed_iff.1 hwf
  have hpre : other <+: text :=
    prefix_of_encode_prefix hrest (hother ▸ List.take_prefix n (encode text ++ rest))
  obtain ⟨more, rfl⟩ := hpre
  have hlen : (encode other).length = n := by rw [hother, List.length_take_of_le hn]
  simp only [encode_append, List.length_append]
  omega

end DepthGauge.Utf8
