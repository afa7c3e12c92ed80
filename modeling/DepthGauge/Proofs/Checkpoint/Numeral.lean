import DepthGauge.Checkpoint.Argument
import DepthGauge.Proofs.Text.Separator
import DepthGauge.Proofs.Text.Trimming
import Mathlib.Data.Nat.Digits.Defs

/-!
# Numerals

The texts that are read as a line number: decimal digits, zeros in front included, which a plus sign
may precede.

## Main definitions

* `decimalValue digits`: the number that decimal digits stand for.
* `IsNumeral text n`: digits with that value, which a plus sign may precede.

## Main results

* `readLineNumber?_eq_some_iff`: a line number is a numeral that is not too large.
* `readLineNumber?_repr`: a number that is written is read as it was.
-/

namespace DepthGauge

/-- The last digit counts ones, the one in front of it tens, and so on. -/
def decimalValue (digits : List Char) : Nat :=
  Nat.ofDigits 10 (digits.reverse.map fun c => c.toNat - '0'.toNat)

def IsNumeral (text : List Char) (n : Nat) : Prop :=
  ∃ sign digits, text = sign ++ digits ∧ (sign = [] ∨ sign = ['+']) ∧
    digits ≠ [] ∧ (∀ c ∈ digits, c.isDigit) ∧ decimalValue digits = n

variable {text : List Char} {n : Nat}

theorem decimalValue_eq (digits : List Char) :
    decimalValue digits = Nat.ofDigitChars 10 digits 0 := by
  induction digits using List.reverseRecOn with
  | nil => rfl
  | append_singleton digits c ih =>
    rw [Nat.ofDigitChars_append, ← ih]
    simp [decimalValue, Nat.ofDigits_cons, Nat.ofDigitChars]
    omega

theorem readLineNumber?_eq_some_iff :
    readLineNumber? text = some n ↔ IsNumeral text n ∧ n ≤ maxLineNumber := by
  constructor
  · intro h
    refine ⟨?_, readLineNumber?_le h⟩
    simp only [readLineNumber?, Option.ite_none_right_eq_some, Option.some.injEq,
      List.all_eq_true] at h
    obtain ⟨⟨hne, hdigits, -⟩, hvalue⟩ := h
    refine ⟨if text.head? = some '+' then ['+'] else [], _, ?_, ?_, hne, hdigits, ?_⟩
    · split
      · next hplus => exact (List.cons_head?_tail hplus).symm
      · rfl
    · split <;> simp
    · rw [decimalValue_eq, hvalue]
  · rintro ⟨⟨sign, digits, rfl, hsign, hne, hdigits, rfl⟩, hle⟩
    have hstrip : (if (sign ++ digits).head? = some '+' then (sign ++ digits).tail
        else sign ++ digits) = digits := by
      rcases hsign with rfl | rfl
      · -- A digit is no plus sign.
        have hplus : digits.head? ≠ some '+' := fun hhead => by
          simpa using hdigits '+' (List.mem_of_mem_head? hhead)
        simp [hplus]
      · simp
    rw [decimalValue_eq] at hle ⊢
    simp only [readLineNumber?, hstrip]
    rw [if_pos ⟨hne, List.all_eq_true.2 hdigits, hle⟩]

/-! ## The characters of a numeral -/

namespace IsNumeral

theorem of_mem (h : IsNumeral text n) {c : Char} (hc : c ∈ text) :
    c = '+' ∨ c.isDigit = true := by
  obtain ⟨sign, digits, rfl, hsign, -, hdigits, -⟩ := h
  rcases List.mem_append.1 hc with hc | hc
  · rcases hsign with rfl | rfl
    · cases hc
    · exact .inl (List.mem_singleton.1 hc)
  · exact .inr (hdigits c hc)

theorem ne_nil (h : IsNumeral text n) : text ≠ [] := by
  obtain ⟨sign, digits, rfl, -, hne, -⟩ := h
  exact List.append_ne_nil_of_right_ne_nil sign hne

theorem isTrimmed (h : IsNumeral text n) : IsTrimmed text := by
  refine isTrimmed_of_forall fun c hc => ?_
  rcases h.of_mem hc with rfl | hdigit
  · rfl
  · exact isBlank_of_isDigit hdigit

theorem not_mem_equals (h : IsNumeral text n) : '=' ∉ text := by
  intro hmem
  simpa using h.of_mem hmem

end IsNumeral

/-- A line number starts with a digit or with a plus sign. -/
theorem head?_of_readLineNumber?_eq_some (h : readLineNumber? text = some n) :
    ∃ c, text.head? = some c ∧ (c = '+' ∨ c.isDigit = true) := by
  obtain ⟨hnumeral, -⟩ := readLineNumber?_eq_some_iff.1 h
  obtain ⟨c, rest, rfl⟩ := List.exists_cons_of_ne_nil hnumeral.ne_nil
  exact ⟨c, rfl, hnumeral.of_mem List.mem_cons_self⟩

/-! ## Written numbers -/

theorem isNumeral_repr (n : Nat) : IsNumeral n.repr.toList n := by
  refine ⟨[], n.repr.toList, rfl, .inl rfl, ?_, fun c => isDigit_of_mem_repr, ?_⟩
  · rw [Nat.toList_repr]
    exact Nat.toDigits_ne_nil
  · rw [decimalValue_eq, Nat.toList_repr]
    simp

theorem readLineNumber?_repr (h : n ≤ maxLineNumber) : readLineNumber? n.repr.toList = some n :=
  readLineNumber?_eq_some_iff.2 ⟨isNumeral_repr n, h⟩

end DepthGauge
