import DepthGauge.Proofs.Text.Encoding
import Mathlib.Data.List.Infix

/-!
# Characters half read

What the decoder knows of a character after some of its bytes: which characters it can be, and which
bytes can come next.

## Main definitions

* `tailBytes n count`: the last bytes of a character, six bits in each.
* `Pending.Admits p c`: the character has the width and the leading bits of the state.
* `Pending.Describes p part`: the state `p` after the bytes `part` of a character.

## Main results

* `Pending.describes_singleton`: the state after a first byte.
* `Pending.Describes.step`, `Pending.Describes.complete`: one byte more, and the last one.
* `Pending.admits_next_iff`: what a byte leaves of the characters.
* `Pending.Describes.bounds_iff`: the bounds let through what some character goes on with.
-/

namespace DepthGauge.Utf8

open String (utf8EncodeChar)

/-! ## Bytes behind the first -/

/-- The last `count` bytes of the character with a number. -/
def tailBytes (n : Nat) : Nat → List UInt8
  | 0 => []
  | count + 1 => .ofNat (n / 64 ^ count % 64 + 0x80) :: tailBytes n count

/-- What marks the first byte of a character with `count` bytes behind it. -/
def leadMark : Nat → Nat
  | 1 => 0xC0
  | 2 => 0xE0
  | _ => 0xF0

theorem le_leadMark (k : Nat) : 0xC0 ≤ leadMark k := by
  unfold leadMark
  split <;> omega

/-- The marks leave room for the bits beside them. -/
theorem leadMark_inj {k l v w : Nat} (hk : k = 1 ∨ k = 2 ∨ k = 3) (hl : l = 1 ∨ l = 2 ∨ l = 3)
    (hv : v < 2 ^ (6 - k)) (hw : w < 2 ^ (6 - l)) (h : v + leadMark k = w + leadMark l) :
    k = l ∧ v = w := by
  rcases hk with rfl | rfl | rfl <;> rcases hl with rfl | rfl | rfl <;>
    simp only [leadMark] at h hv hw <;> omega

theorem utf8EncodeChar_eq_cons {c : Char} {k : Nat} (h : width c.toNat = k + 1)
    (hk : k = 1 ∨ k = 2 ∨ k = 3) : c.toNat / 64 ^ k < 2 ^ (6 - k) ∧
      utf8EncodeChar c = .ofNat (c.toNat / 64 ^ k + leadMark k) :: tailBytes c.toNat k := by
  have hle := (isScalar_toNat c).1
  simp only [utf8EncodeChar, Char.toNat_val]
  rcases hk with rfl | rfl | rfl
  · have hn : 0x80 ≤ c.toNat ∧ c.toNat < 0x800 := by grind [width]
    rw [if_neg (by omega), if_pos (by omega), Nat.mod_eq_of_lt (by omega : c.toNat / 64 < 32)]
    exact ⟨by omega, by simp [tailBytes, leadMark]⟩
  · have hn : 0x800 ≤ c.toNat ∧ c.toNat < 0x10000 := by grind [width]
    rw [if_neg (by omega), if_neg (by omega), if_pos (by omega),
      Nat.mod_eq_of_lt (by omega : c.toNat / 4096 < 16)]
    exact ⟨by omega, by simp [tailBytes, leadMark]⟩
  · have hn : 0x10000 ≤ c.toNat := by grind [width]
    rw [if_neg (by omega), if_neg (by omega), if_neg (by omega),
      Nat.mod_eq_of_lt (by omega : c.toNat / 262144 < 8)]
    exact ⟨by omega, by simp [tailBytes, leadMark]⟩

theorem ofNat_eq_iff {b : UInt8} {n : Nat} (hn : n < 256) : UInt8.ofNat n = b ↔ n = b.toNat := by
  rw [← UInt8.toNat_inj, UInt8.toNat_ofNat', Nat.mod_eq_of_lt hn]

theorem tailByte_eq_iff {b : UInt8} {n : Nat} :
    UInt8.ofNat (n % 64 + 0x80) = b ↔ n % 64 + 0x80 = b.toNat :=
  ofNat_eq_iff (by omega)

/-- The first byte of a character with several tells how many follow it. -/
theorem of_singleton_prefix {b : UInt8} {c : Char} (h : [b] <+: utf8EncodeChar c)
    (hb : 0x80 ≤ b.toNat) : ∃ k, width c.toNat = k + 1 ∧ (k = 1 ∨ k = 2 ∨ k = 3) ∧
      c.toNat / 64 ^ k < 2 ^ (6 - k) ∧ c.toNat / 64 ^ k + leadMark k = b.toNat := by
  by_cases hone : c.toNat < 0x80
  · rw [utf8EncodeChar_eq_singleton hone, List.cons_prefix_cons] at h
    have := (ofNat_eq_iff (by omega)).1 h.1.symm
    omega
  obtain ⟨k, hwidth, hk⟩ : ∃ k, width c.toNat = k + 1 ∧ (k = 1 ∨ k = 2 ∨ k = 3) := by
    grind [width]
  obtain ⟨hlead, heq⟩ := utf8EncodeChar_eq_cons hwidth hk
  rw [heq, List.cons_prefix_cons] at h
  have hsmall : c.toNat / 64 ^ k + leadMark k < 256 := by
    rcases hk with rfl | rfl | rfl <;> simp only [leadMark] <;> omega
  exact ⟨k, hwidth, hk, hlead, (ofNat_eq_iff hsmall).1 h.1.symm⟩

theorem digits_div (v : Nat) {x : Nat} (hx : x < 64) (k : Nat) :
    (v * 64 + x) * 64 ^ k / 64 ^ k = v * 64 + x ∧ (v * 64 + x) * 64 ^ k / 64 ^ (k + 1) = v := by
  have hk : (v * 64 + x) * 64 ^ k / 64 ^ k = v * 64 + x :=
    Nat.mul_div_cancel _ (Nat.pow_pos (by decide))
  refine ⟨hk, ?_⟩
  rw [Nat.pow_succ, ← Nat.div_div_eq_div_mul, hk]
  omega

/-! ## A character that is being read -/

namespace Pending

/-- The character has the width and the leading bits of the state. -/
def Admits (p : Pending) (c : Char) : Prop :=
  width c.toNat = p.seen + p.afterNext + 1 ∧ c.toNat / 64 ^ (p.afterNext + 1) = p.value

/-- The state after the bytes `part` of a character: the characters that start with them are those
that the state admits, and a byte is within the bounds if one of them goes on with it. -/
structure Describes (p : Pending) (part : List UInt8) : Prop where
  seen : p.seen = part.length
  ne_nil : part ≠ []
  admits : ∀ c, part <+: utf8EncodeChar c → p.Admits c
  eq_append : ∀ c, p.Admits c → utf8EncodeChar c = part ++ tailBytes c.toNat (p.afterNext + 1)
  bounds : ∀ b : UInt8, p.low ≤ b.toNat ∧ b.toNat ≤ p.high ↔
    ∃ c, p.Admits c ∧ c.toNat / 64 ^ p.afterNext % 64 + 0x80 = b.toNat
  nonempty : ∃ c, p.Admits c

/-- Any number with the leading bits of the state will do, if it is one that a character of this
width has. -/
theorem exists_admits {p : Pending} {x : Nat} (hx : x < 64)
    (hscalar : IsScalar ((p.value * 64 + x) * 64 ^ p.afterNext))
    (hwidth : width ((p.value * 64 + x) * 64 ^ p.afterNext) = p.seen + p.afterNext + 1) :
    ∃ c, p.Admits c ∧ c.toNat / 64 ^ p.afterNext % 64 = x := by
  obtain ⟨hdiv, hlead⟩ := digits_div p.value hx p.afterNext
  refine ⟨Char.ofNat ((p.value * 64 + x) * 64 ^ p.afterNext), ⟨?_, ?_⟩, ?_⟩ <;>
    rw [hscalar.toNat_ofNat]
  · exact hwidth
  · exact hlead
  · omega

section Admits

variable {p : Pending} {b : UInt8} {c : Char}

theorem Admits.div_eq (h : p.Admits c) :
    c.toNat / 64 ^ p.afterNext = p.value * 64 + c.toNat / 64 ^ p.afterNext % 64 := by
  have hlead := h.2
  rw [Nat.pow_succ, ← Nat.div_div_eq_div_mul] at hlead
  omega

/-- Behind the second byte any byte can come next. -/
theorem Admits.exists_admits (h : p.Admits c) (hseen : 2 ≤ p.seen) {x : Nat} (hx : x < 64) :
    ∃ d, p.Admits d ∧ d.toNat / 64 ^ p.afterNext % 64 = x := by
  obtain ⟨hwidth, hlead⟩ := h
  have hdiv := (digits_div p.value hx p.afterNext).2.trans hlead.symm
  obtain ⟨hscalar, hwidth'⟩ := (isScalar_toNat c).of_div_eq (by omega) hdiv
  exact Pending.exists_admits hx hscalar (hwidth'.trans hwidth)

/-- The next byte chooses among the characters of a state. -/
theorem admits_next_iff {n : Nat} (hmore : p.afterNext = n + 1)
    (hb : 0x80 ≤ b.toNat ∧ b.toNat < 0xC0) :
    Admits ⟨p.value * 64 + b.toNat % 64, p.seen + 1, n, 0x80, 0xBF⟩ c ↔
      p.Admits c ∧ c.toNat / 64 ^ (n + 1) % 64 + 0x80 = b.toNat := by
  have hdiv (m : Nat) : m / 64 ^ (n + 2) = m / 64 ^ (n + 1) / 64 := by
    rw [Nat.div_div_eq_div_mul, ← Nat.pow_succ]
  simp only [Admits, hmore, hdiv]
  omega

end Admits

namespace Describes

variable {p : Pending} {part : List UInt8} {b : UInt8}

/-- A byte is within the bounds if some character starts with it behind the others. -/
theorem bounds_iff (h : p.Describes part) (b : UInt8) :
    p.low ≤ b.toNat ∧ b.toNat ≤ p.high ↔ ∃ c, part ++ [b] <+: utf8EncodeChar c := by
  rw [h.bounds]
  constructor
  · rintro ⟨c, hc, hb⟩
    refine ⟨c, tailBytes c.toNat p.afterNext, ?_⟩
    rw [h.eq_append c hc, tailBytes, tailByte_eq_iff.2 hb]
    simp
  · rintro ⟨c, hpre⟩
    have hc : p.Admits c := h.admits c ((List.prefix_append part [b]).trans hpre)
    rw [h.eq_append c hc, List.prefix_append_right_inj, tailBytes, List.cons_prefix_cons] at hpre
    exact ⟨c, hc, tailByte_eq_iff.1 hpre.1.symm⟩

theorem isCut (h : p.Describes part) : IsCut part := by
  obtain ⟨c, hc⟩ := h.nonempty
  have heq := h.eq_append c hc
  refine ⟨h.ne_nil, c, ⟨_, heq.symm⟩, ?_⟩
  intro hall
  have hlen := congrArg List.length heq
  simp [← hall, tailBytes] at hlen

/-- The last byte completes a character. -/
theorem complete (h : p.Describes part) (hb : p.low ≤ b.toNat ∧ b.toNat ≤ p.high)
    (hlast : p.afterNext = 0) :
    utf8EncodeChar (Char.ofNat (p.value * 64 + b.toNat % 64)) = part ++ [b] := by
  obtain ⟨c, hc, hbyte⟩ := (h.bounds b).1 hb
  have heq := h.eq_append c hc
  have hvalue := hc.2
  simp only [hlast, Nat.zero_add, Nat.pow_zero, Nat.div_one, Nat.pow_one, tailBytes]
    at hbyte heq hvalue
  have hnumber : p.value * 64 + b.toNat % 64 = c.toNat := by omega
  rw [hnumber, Char.ofNat_toNat, heq, tailByte_eq_iff.2 hbyte]

/-- Another byte leaves the characters that go on with it. -/
theorem step (h : p.Describes part) (hb : p.low ≤ b.toNat ∧ b.toNat ≤ p.high) {n : Nat}
    (hmore : p.afterNext = n + 1) :
    Describes ⟨p.value * 64 + b.toNat % 64, p.seen + 1, n, 0x80, 0xBF⟩ (part ++ [b]) := by
  obtain ⟨c₀, hc₀, hbyte₀⟩ := (h.bounds b).1 hb
  rw [hmore] at hbyte₀
  have hbits : 0x80 ≤ b.toNat ∧ b.toNat < 0xC0 := by omega
  have hadmits (c : Char) := admits_next_iff (c := c) hmore hbits
  have hnext := (hadmits c₀).2 ⟨hc₀, hbyte₀⟩
  have hseen : 1 ≤ p.seen := by
    rw [h.seen]
    exact List.length_pos_of_ne_nil h.ne_nil
  refine ⟨by simp [h.seen], by simp, ?_, ?_, ?_, ⟨c₀, hnext⟩⟩
  · intro c hpre
    have hc : p.Admits c := h.admits c ((List.prefix_append part [b]).trans hpre)
    rw [h.eq_append c hc, List.prefix_append_right_inj, hmore, tailBytes,
      List.cons_prefix_cons] at hpre
    exact (hadmits c).2 ⟨hc, tailByte_eq_iff.1 hpre.1.symm⟩
  · intro c hc
    obtain ⟨hold, hbyte⟩ := (hadmits c).1 hc
    rw [h.eq_append c hold, hmore, tailBytes, tailByte_eq_iff.2 hbyte]
    simp
  · intro b'
    simp only
    constructor
    · intro hb'
      have hx : b'.toNat % 64 < 64 := Nat.mod_lt _ (by decide)
      obtain ⟨c, hc, hbyte⟩ := hnext.exists_admits (by simp only; omega) hx
      exact ⟨c, hc, by simp only at hbyte; omega⟩
    · rintro ⟨c, -, hbyte⟩
      omega

end Describes

/-- What a first byte says in numbers. The bounds of the second byte are such that the number is one
that a character of this width has. -/
theorem of_ofLead?_eq_some {b : Nat} {p : Pending} (h : ofLead? b = some p) :
    p.seen = 1 ∧ p.afterNext ≤ 2 ∧ b = p.value + leadMark (p.afterNext + 1) ∧
      p.value < 2 ^ (6 - (p.afterNext + 1)) ∧ 0x80 ≤ p.low ∧ p.low ≤ p.high ∧ p.high ≤ 0xBF ∧
      ∀ x < 64, p.low ≤ x + 0x80 ∧ x + 0x80 ≤ p.high ↔
        IsScalar ((p.value * 64 + x) * 64 ^ p.afterNext) ∧
          width ((p.value * 64 + x) * 64 ^ p.afterNext) = p.afterNext + 2 := by
  unfold ofLead? at h
  repeat' split at h
  all_goals simp only [Option.some.injEq, reduceCtorEq] at h
  all_goals subst h
  all_goals
    refine ⟨rfl, by simp, by simp [leadMark]; omega, by simp; omega, by simp, by simp, by simp, ?_⟩
    intro x hx
    simp only [IsScalar, width]
    grind

/-- The state after the first byte of a character with several. -/
theorem describes_singleton {b : UInt8} {p : Pending} (h : ofLead? b.toNat = some p) :
    p.Describes [b] := by
  obtain ⟨hseen, hmore, hb, hvalue, hlow, hle, hhigh, hbounds⟩ := of_ofLead?_eq_some h
  have hkinds : p.afterNext + 1 = 1 ∨ p.afterNext + 1 = 2 ∨ p.afterNext + 1 = 3 := by omega
  have hfill {x : Nat} (hx : x < 64) (hin : p.low ≤ x + 0x80 ∧ x + 0x80 ≤ p.high) :
      ∃ c, p.Admits c ∧ c.toNat / 64 ^ p.afterNext % 64 = x := by
    obtain ⟨hscalar, hwidth⟩ := (hbounds x hx).1 hin
    exact exists_admits hx hscalar (by omega)
  refine ⟨by simp [hseen], by simp, ?_, ?_, ?_, ?_⟩
  · intro c hpre
    have hmark := le_leadMark (p.afterNext + 1)
    obtain ⟨k, hwidth, hk, hlead, hc⟩ := of_singleton_prefix hpre (by omega)
    obtain ⟨rfl, hvalue'⟩ := leadMark_inj hk hkinds hlead hvalue (by omega)
    exact ⟨by omega, hvalue'⟩
  · intro c hc
    obtain ⟨-, heq⟩ := utf8EncodeChar_eq_cons (by rw [hc.1, hseen]; omega) hkinds
    rw [heq, hc.2, ← hb, UInt8.ofNat_toNat]
    rfl
  · intro b'
    constructor
    · intro hin
      obtain ⟨c, hc, hx⟩ := hfill (by omega : b'.toNat - 0x80 < 64) (by omega)
      exact ⟨c, hc, by omega⟩
    · rintro ⟨c, hc, hbyte⟩
      have hwidth := hc.1
      have hx : c.toNat / 64 ^ p.afterNext % 64 < 64 := Nat.mod_lt _ (by decide)
      obtain ⟨hscalar, hwidth'⟩ := (isScalar_toNat c).of_div_eq (by omega)
        ((digits_div p.value hx p.afterNext).1.trans hc.div_eq.symm)
      rw [← hbyte, hbounds _ hx]
      exact ⟨hscalar, by omega⟩
  · obtain ⟨c, hc, -⟩ := hfill (by omega : p.low - 0x80 < 64) (by omega)
    exact ⟨c, hc⟩

/-- A byte that starts no state starts no character. -/
theorem not_prefix_of_ofLead?_eq_none {b : UInt8} (h : ofLead? b.toNat = none)
    (hb : 0x80 ≤ b.toNat) (c : Char) : ¬ [b] <+: utf8EncodeChar c := by
  intro hpre
  obtain ⟨k, hwidth, hk, -, hc⟩ := of_singleton_prefix hpre hb
  have hout : b.toNat < 0xC2 ∨ 0xF4 < b.toNat := by grind [ofLead?]
  have hle := (isScalar_toNat c).1
  rcases hk with rfl | rfl | rfl <;> grind [leadMark, width]

end Pending

end DepthGauge.Utf8
