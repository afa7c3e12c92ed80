import Std.Data.String.ToInt

/-!
# Separators

A text that is made of pieces with a symbol between them can be taken apart again, at the first
place of the symbol if no piece before it holds the symbol, and at the last place if none behind it
does. Printed numbers hold digits and signs only, which makes them such pieces.

## Main results

* `append_cons_inj_of_not_mem_left`: cutting at the first place.
* `append_cons_inj_of_not_mem_right`: cutting at the last place.
* `not_mem_repr`, `not_mem_int_repr`: what no printed number holds.
-/

namespace DepthGauge

section Cut

variable {α : Type} {c : α} {a b x y : List α}

theorem append_cons_inj_of_not_mem_left (ha : c ∉ a) (hb : c ∉ b) :
    a ++ c :: x = b ++ c :: y ↔ a = b ∧ x = y := by
  induction a generalizing b with
  | nil => cases b <;> grind
  | cons d a ih => cases b <;> grind

theorem append_cons_inj_of_not_mem_right (hx : c ∉ x) (hy : c ∉ y) :
    a ++ c :: x = b ++ c :: y ↔ a = b ∧ x = y := by
  -- Read from the end, the last place is the first.
  have hreverse : x.reverse ++ c :: a.reverse = y.reverse ++ c :: b.reverse ↔
      x.reverse = y.reverse ∧ a.reverse = b.reverse :=
    append_cons_inj_of_not_mem_left (by simpa using hx) (by simpa using hy)
  rw [← List.reverse_inj]
  simpa [and_comm] using hreverse

theorem takeWhile_ne_append_cons [DecidableEq α] (ha : c ∉ a) :
    (a ++ c :: x).takeWhile (· ≠ c) = a := by
  rw [List.takeWhile_append_of_pos (by grind)]
  simp

theorem dropWhile_ne_append_cons [DecidableEq α] (ha : c ∉ a) :
    (a ++ c :: x).dropWhile (· ≠ c) = c :: x := by
  rw [List.dropWhile_append_of_pos (by grind)]
  simp

end Cut

/-! ## Printed numbers -/

variable {c : Char}

theorem isDigit_of_mem_repr {n : Nat} (h : c ∈ n.repr.toList) : c.isDigit = true := by
  rw [Nat.toList_repr] at h
  exact Nat.isDigit_of_mem_toDigits (by decide) (by decide) h

theorem not_mem_repr (h : c.isDigit = false) (n : Nat) : c ∉ n.repr.toList := by
  intro hmem
  simp [isDigit_of_mem_repr hmem] at h

theorem not_mem_int_repr (h : c.isDigit = false) (hsign : c ≠ '-') (z : Int) :
    c ∉ z.repr.toList := by
  rw [Int.repr_eq_if]
  split
  · exact not_mem_repr h _
  · simpa [hsign] using not_mem_repr h _

end DepthGauge
