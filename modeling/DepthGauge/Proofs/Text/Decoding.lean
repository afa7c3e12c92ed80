import DepthGauge.Proofs.Text.PartialCharacter
import Mathlib.Tactic.ByContra

/-!
# Decoding

What a decoder holds after some bytes: the text of the characters that are complete, and the bytes
of the one that is not. Where it stops, the text before is the longest one, and no character goes on
with the byte that it stops at.

## Main definitions

* `Fault.IsExact f bytes`: the fault says where and how the bytes stop being UTF-8.
* `Fault.Describes f bytes`: the same by parts of the bytes, as the decoder finds it.
* `Decoder.HasRead bytes d`: the state `d` after some bytes.
* `Decoder.Reads d bytes b`: one byte is read behind some others, or is at fault.

## Main results

* `Decoder.hasRead_foldlM`: the state after any bytes, or the fault in them.
* `decode_eq_ok_iff`: decoding undoes encoding, and gives a text for no other bytes.
* `describes_of_decode_eq_error`, `Fault.Describes.isExact`: what a fault says is so.
-/

namespace DepthGauge.Utf8

open String (utf8EncodeChar)

/-! ## Faults -/

/-- Why no character stands at the start of the bytes: they end in one, or a byte of them goes on
with no character. Bytes that start a character are counted, and a byte that starts none is too. -/
inductive Fault.Stops : Option Nat → List UInt8 → Prop where
  | cut {rest : List UInt8} (h : IsCut rest) : Stops none rest
  | invalid {part : List UInt8} {b : UInt8} (hpart : part = [] ∨ IsCut part)
    (hb : ∀ c, ¬ part ++ [b] <+: utf8EncodeChar c) (more : List UInt8) :
    Stops (some (max 1 part.length)) (part ++ b :: more)

/-- The lengths of the starts of some bytes that are also starts of a character. -/
def Fault.cutLengths (rest : List UInt8) : Set Nat := {n | n ≤ rest.length ∧ IsCut (rest.take n)}

/-- The fault gives the length of the longest well-formed start of the bytes, and behind it that of
the longest start of a character: one if there is none, and no length if the bytes end in it. -/
structure Fault.IsExact (f : Fault) (bytes : List UInt8) : Prop where
  valid : IsGreatest {n | n ≤ bytes.length ∧ IsWellFormed (bytes.take n)} f.validLength
  cut : f.invalidLength = none ↔ IsCut (bytes.drop f.validLength)
  invalid : ∀ n, f.invalidLength = some n → 1 ≤ n ∧ n ≤ 3 ∧
    (IsGreatest (cutLengths (bytes.drop f.validLength)) n ∨
      cutLengths (bytes.drop f.validLength) = ∅ ∧ n = 1)

/-- The fault tells where the text at the start of the bytes ends, and why. -/
structure Fault.Describes (f : Fault) (bytes : List UInt8) : Prop where
  text : ∃ text, encode text = bytes.take f.validLength
  stops : Fault.Stops f.invalidLength (bytes.drop f.validLength)

namespace Fault

variable {f : Fault} {bytes rest : List UInt8} {length : Option Nat}

theorem describes_append {text : List Char} {n : Nat} (hn : n = (encode text).length)
    (h : Stops length rest) : Describes ⟨n, length⟩ (encode text ++ rest) := by
  subst hn
  exact ⟨⟨text, by simp⟩, by simpa using h⟩

theorem Stops.ne_nil (h : Stops length rest) : rest ≠ [] := by
  cases h with
  | cut h => exact h.1
  | invalid => simp

theorem Stops.isBlocked (h : Stops length rest) : IsBlocked rest := by
  cases h with
  | cut h => exact h.isBlocked
  | @invalid part b hpart hb more =>
    intro c hc
    have hpart : IsBlocked part := by
      rcases hpart with rfl | hpart
      · exact isBlocked_nil
      · exact hpart.isBlocked
    have hmore : part ++ [b] <+: part ++ b :: more := ⟨more, by simp⟩
    rcases List.prefix_or_prefix_of_prefix hc hmore with h | h
    · rcases List.prefix_concat_iff.1 h with h | h
      · exact hb c (by rw [h])
      · exact hpart c h
    · exact hb c h

theorem length_lt_of_isCut {part : List UInt8} (h : IsCut part) : part.length < 4 := by
  obtain ⟨-, c, hpre, hne⟩ := h
  have hlt : part.length ≠ (utf8EncodeChar c).length := fun hlen => hne (hpre.eq_of_length hlen)
  have hle := hpre.length_le
  have hfour := c.utf8Size_le_four
  rw [String.length_utf8EncodeChar] at hlt hle
  omega

theorem Stops.eq_none_iff (h : Stops length rest) : length = none ↔ IsCut rest := by
  cases h with
  | cut h => exact ⟨fun _ => h, fun _ => rfl⟩
  | @invalid part b _ hb more =>
    have hmore : part ++ [b] <+: part ++ b :: more := ⟨more, by simp⟩
    refine ⟨nofun, ?_⟩
    rintro ⟨-, c, hpre, -⟩
    exact absurd (hmore.trans hpre) (hb c)

theorem Stops.of_some {n : Nat} (h : Stops (some n) rest) : 1 ≤ n ∧ n ≤ 3 ∧
    (IsGreatest (cutLengths rest) n ∨ cutLengths rest = ∅ ∧ n = 1) := by
  generalize hlength : some n = length at h
  cases h with
  | cut h => cases hlength
  | @invalid part b hpart hb more =>
    obtain rfl := Option.some.inj hlength
    have hmore : part ++ [b] <+: part ++ b :: more := ⟨more, by simp⟩
    have hle : part.length ∈ upperBounds (cutLengths (part ++ b :: more)) := by
      rintro k ⟨hk, -, c, hpre, -⟩
      by_contra hlt
      have htake : part ++ [b] <+: (part ++ b :: more).take k :=
        List.prefix_of_prefix_length_le hmore (List.take_prefix k _) (by simp at hk ⊢; omega)
      exact hb c (htake.trans hpre)
    rcases hpart with rfl | hpart
    · refine ⟨by simp, by simp, .inr ⟨?_, rfl⟩⟩
      rw [Set.eq_empty_iff_forall_notMem]
      intro k hk
      have hzero : k = 0 := by simpa using hle hk
      exact hk.2.1 (by simp [hzero])
    · have hpos : 0 < part.length := List.length_pos_of_ne_nil hpart.1
      have hlt := length_lt_of_isCut hpart
      rw [Nat.max_eq_right hpos]
      exact ⟨hpos, by omega, .inl ⟨⟨by simp, by simpa using hpart⟩, hle⟩⟩

namespace Describes

theorem validLength_lt (h : f.Describes bytes) : f.validLength < bytes.length := by
  by_contra hle
  exact h.stops.ne_nil (List.drop_eq_nil_of_le (by omega))

/-- The text in front of a fault is the longest one. -/
theorem isGreatest (h : f.Describes bytes) :
    IsGreatest {n | n ≤ bytes.length ∧ IsWellFormed (bytes.take n)} f.validLength := by
  obtain ⟨text, htext⟩ := h.text
  have hgreatest := isGreatest_wellFormed text h.stops.isBlocked
  rwa [htext, List.take_append_drop, List.length_take_of_le h.validLength_lt.le] at hgreatest

theorem isExact (h : f.Describes bytes) : f.IsExact bytes where
  valid := h.isGreatest
  cut := h.stops.eq_none_iff
  invalid _ hn := Stops.of_some (hn ▸ h.stops)

theorem not_isWellFormed (h : f.Describes bytes) : ¬ IsWellFormed bytes := by
  intro hwf
  have hle : bytes.length ≤ f.validLength := h.isGreatest.2 ⟨le_rfl, by simpa using hwf⟩
  have hlt := h.validLength_lt
  omega

end Describes

end Fault

/-! ## Decoding some bytes -/

namespace Decoder

/-- Some bytes of a character are read, or none and no character is started. -/
inductive Unfinished : Option Pending → List UInt8 → Prop where
  | none : Unfinished none []
  | some {p : Pending} {part : List UInt8} (h : p.Describes part) : Unfinished (some p) part

/-- The bytes are those of the text, and of the character after it as far as it is read. -/
structure HasRead (bytes : List UInt8) (d : Decoder) : Prop where
  length : d.length = (encode d.text.toList).length
  unfinished : ∃ part, encode d.text.toList ++ part = bytes ∧ Unfinished d.pending part

theorem hasRead_start : HasRead [] start := ⟨rfl, [], rfl, .none⟩

variable {d : Decoder} {bytes : List UInt8} {b : UInt8}

/-- The bytes of a character that is complete join those of the text. -/
theorem hasRead_push {value count : Nat} {part : List UInt8}
    (hlength : d.length = (encode d.text.toList).length)
    (hpart : utf8EncodeChar (Char.ofNat value) = part) (hcount : part.length = count) :
    HasRead (encode d.text.toList ++ part) (d.push value count) := by
  subst hpart hcount
  exact ⟨by simp [push, hlength], [], by simp [push], .none⟩

/-- Behind some bytes, one more is read or shows the fault of all bytes that go on with it. -/
def Reads (d : Decoder) (bytes : List UInt8) (b : UInt8) : Prop :=
  (∃ d', d.step b = .ok d' ∧ d'.HasRead (bytes ++ [b])) ∨
    ∃ f, d.step b = .error f ∧ ∀ more, f.Describes (bytes ++ b :: more)

theorem reads_of_eq_none (hlength : d.length = (encode d.text.toList).length)
    (hpending : d.pending = none) (b : UInt8) : d.Reads (encode d.text.toList) b := by
  simp only [Reads, Decoder.step, hpending]
  by_cases hb : b.toNat < 0x80
  · have hone : utf8EncodeChar (Char.ofNat b.toNat) = [b] := by
      have hn : (Char.ofNat b.toNat).toNat = b.toNat :=
        IsScalar.toNat_ofNat ⟨by omega, by omega⟩
      rw [utf8EncodeChar_eq_singleton (by omega), hn, UInt8.ofNat_toNat]
    rw [if_pos hb]
    exact .inl ⟨_, rfl, hasRead_push hlength hone rfl⟩
  · rw [if_neg hb]
    cases hlead : Pending.ofLead? b.toNat with
    | some p =>
      exact .inl ⟨_, rfl, hlength, [b], rfl, .some (Pending.describes_singleton hlead)⟩
    | none =>
      have hb' : ∀ c, ¬ [] ++ [b] <+: utf8EncodeChar c :=
        Pending.not_prefix_of_ofLead?_eq_none hlead (by omega)
      exact .inr ⟨_, rfl, fun more =>
        Fault.describes_append hlength (.invalid (.inl rfl) hb' more)⟩

theorem reads_of_eq_some {p : Pending} {part : List UInt8}
    (hlength : d.length = (encode d.text.toList).length) (hpending : d.pending = some p)
    (hp : p.Describes part) (b : UInt8) : d.Reads (encode d.text.toList ++ part) b := by
  simp only [Reads, Decoder.step, hpending, List.append_assoc]
  by_cases hb : p.low ≤ b.toNat ∧ b.toNat ≤ p.high
  · rw [if_pos hb]
    cases hmore : p.afterNext with
    | zero =>
      exact .inl ⟨_, rfl, hasRead_push hlength (hp.complete hb hmore) (by simp [hp.seen])⟩
    | succ n => exact .inl ⟨_, rfl, hlength, part ++ [b], rfl, .some (hp.step hb hmore)⟩
  · rw [if_neg hb]
    have hb' : ∀ c, ¬ part ++ [b] <+: utf8EncodeChar c :=
      fun c hpre => hb ((hp.bounds_iff b).2 ⟨c, hpre⟩)
    -- The byte that does not fit is not counted, only those before it.
    have hseen : max 1 part.length = p.seen := by
      rw [hp.seen, Nat.max_eq_right (List.length_pos_of_ne_nil hp.ne_nil)]
    refine .inr ⟨_, rfl, fun more => ?_⟩
    rw [← hseen]
    exact Fault.describes_append hlength (.invalid (.inr hp.isCut) hb' more)

theorem HasRead.reads (h : d.HasRead bytes) (b : UInt8) : d.Reads bytes b := by
  obtain ⟨hlength, part, rfl, hpart⟩ := h
  generalize hpending : d.pending = pending at hpart
  cases hpart with
  | none =>
    rw [List.append_nil]
    exact reads_of_eq_none hlength hpending b
  | some hp => exact reads_of_eq_some hlength hpending hp b

/-- After any bytes: what was read of them, or the fault that they hold. -/
theorem hasRead_foldlM {before : List UInt8} (h : d.HasRead before) (bytes : List UInt8) :
    (∃ d', bytes.foldlM Decoder.step d = .ok d' ∧ d'.HasRead (before ++ bytes)) ∨
      ∃ f, bytes.foldlM Decoder.step d = .error f ∧ f.Describes (before ++ bytes) := by
  induction bytes generalizing d before with
  | nil => exact .inl ⟨d, rfl, by simpa using h⟩
  | cons b bytes ih =>
    rw [List.foldlM_cons]
    rcases h.reads b with ⟨d', hd', h'⟩ | ⟨f, hf, hbytes⟩
    · rw [hd', List.append_cons]
      exact ih h'
    · rw [hf]
      exact .inr ⟨f, rfl, hbytes bytes⟩

end Decoder

theorem decode_cases (bytes : List UInt8) :
    (∃ text, decode bytes = .ok text ∧ encode text = bytes) ∨
      ∃ f, decode bytes = .error f ∧ f.Describes bytes := by
  rcases Decoder.hasRead_foldlM Decoder.hasRead_start bytes with ⟨d, hd, h⟩ | ⟨f, hf, hbytes⟩
  · obtain ⟨hlength, part, hbytes, hpart⟩ := h
    rw [decode, hd]
    generalize hpending : d.pending = pending at hpart
    cases hpart with
    | none =>
      exact .inl ⟨d.text.toList, by simp [bind, Except.bind, Decoder.finish, hpending],
        by simpa using hbytes⟩
    | some hp =>
      refine .inr ⟨⟨d.length, none⟩, by simp [bind, Except.bind, Decoder.finish, hpending], ?_⟩
      rw [List.nil_append] at hbytes
      rw [← hbytes]
      exact Fault.describes_append hlength (.cut hp.isCut)
  · rw [decode, hf]
    exact .inr ⟨f, rfl, by simpa using hbytes⟩

/-- Decoding undoes encoding, and gives a text for no other bytes. -/
theorem decode_eq_ok_iff {bytes : List UInt8} {text : List Char} :
    decode bytes = .ok text ↔ encode text = bytes := by
  rcases decode_cases bytes with ⟨other, hdecode, rfl⟩ | ⟨f, hdecode, hf⟩
  · rw [hdecode, Except.ok.injEq]
    exact ⟨fun h => congrArg encode h.symm, fun h => encode_injective h.symm⟩
  · rw [hdecode]
    refine ⟨nofun, ?_⟩
    rintro rfl
    exact absurd (isWellFormed_iff.2 ⟨text, rfl⟩) hf.not_isWellFormed

theorem describes_of_decode_eq_error {bytes : List UInt8} {f : Fault}
    (h : decode bytes = .error f) : f.Describes bytes := by
  rcases decode_cases bytes with ⟨text, hdecode, -⟩ | ⟨g, hdecode, hg⟩
  · rw [hdecode] at h
    cases h
  · rw [hdecode] at h
    cases h
    exact hg

end DepthGauge.Utf8
