import DepthGauge.Balance.Depths
import DepthGauge.Proofs.Balance.Occurrence
import DepthGauge.Proofs.Text.LineSplit
import Mathlib.Algebra.BigOperators.Group.List.Basic
import Mathlib.Algebra.Group.Defs

/-!
# Depths of joined texts

Depths form a group, counter by counter. The depths of two joined texts are the sum of theirs and of
what is counted across the border. The depths of a text that lines are joined to are the sum of the
depths of the lines, because no marker holds a terminator.

## Main definitions

* `Depths.straddling a b`: what is counted across a border.

## Main results

* `Depths.tally_append_eq`: the depths of two joined texts.
* `Depths.tally_append`: depths add up where no marker straddles.
* `Depths.tally_append_terminator`: terminators do not count.
* `Depths.tally_flatten`: the depths of joined lines.
-/

namespace DepthGauge

/-! ## Line ends -/

namespace Marker

variable {a b ending : List Char}

theorem not_straddles_of_suffix (h : ending ∈ terminators) (ha : ending <:+ a) (m : Marker)
    (b : List Char) : ¬ m.Straddles a b := by
  have hlast : ∃ c, a.getLast? = some c ∧ (c = '\n' ∨ c = '\r') := by
    obtain ⟨body, rfl⟩ := ha
    rcases mem_terminators.1 h with rfl | rfl | rfl <;> simp [LineSymbol.lf, LineSymbol.cr]
  obtain ⟨c, hc, hcases⟩ := hlast
  exact not_straddles_of_getLast? hc (not_mem_text_of_terminator hcases m) b

theorem not_straddles_of_isPrefix (h : ending ∈ terminators) (hb : ending <+: b) (m : Marker)
    (a : List Char) : ¬ m.Straddles a b := by
  have hfirst : ∃ c, b.head? = some c ∧ (c = '\n' ∨ c = '\r') := by
    obtain ⟨rest, rfl⟩ := hb
    rcases mem_terminators.1 h with rfl | rfl | rfl <;> simp [LineSymbol.lf, LineSymbol.cr]
  obtain ⟨c, hc, hcases⟩ := hfirst
  exact not_straddles_of_head? hc (mt List.mem_of_mem_tail (not_mem_text_of_terminator hcases m)) a

end Marker

/-! ## The group of depths -/

namespace Depths

instance : Neg Depths := ⟨fun a => ⟨-a.braces, -a.parens, -a.divs⟩⟩

instance : Sub Depths := ⟨fun a b => ⟨a.braces - b.braces, a.parens - b.parens, a.divs - b.divs⟩⟩

@[simp] theorem braces_neg (a : Depths) : (-a).braces = -a.braces := rfl
@[simp] theorem parens_neg (a : Depths) : (-a).parens = -a.parens := rfl
@[simp] theorem divs_neg (a : Depths) : (-a).divs = -a.divs := rfl

@[simp] theorem braces_sub (a b : Depths) : (a - b).braces = a.braces - b.braces := rfl
@[simp] theorem parens_sub (a b : Depths) : (a - b).parens = a.parens - b.parens := rfl
@[simp] theorem divs_sub (a b : Depths) : (a - b).divs = a.divs - b.divs := rfl

instance : AddCommGroup Depths where
  add_assoc := add_assoc
  zero_add := zero_add
  add_zero := add_zero
  add_comm := add_comm
  neg_add_cancel a := by ext <;> simp
  sub_eq_add_neg a b := by ext <;> simp [Int.sub_eq_add_neg]
  nsmul := nsmulRec
  zsmul := zsmulRec

/-! ## Joined texts -/

/-- What is counted across a border, and so in neither of the two texts. -/
def straddling (a b : List Char) : Depths :=
  ⟨0, 0, (if Marker.opening.Straddles a b then 1 else 0) -
    (if Marker.closing.Straddles a b then 1 else 0)⟩

theorem tally_append_eq (a b : List Char) :
    tally (a ++ b) = tally a + tally b + straddling a b := by
  have hmarkers : markers (a ++ b) = markers a + markers b + straddling a b := by
    ext
    · rfl
    · rfl
    · simp only [markers, straddling, Marker.count_append, divs_add]
      by_cases ho : Marker.opening.Straddles a b <;> by_cases hc : Marker.closing.Straddles a b <;>
        simp only [ho, hc, if_true, if_false] <;> omega
  rw [tally, brackets_append, hmarkers, tally, tally, ← add_assoc, add_add_add_comm]

theorem tally_append {a b : List Char} (h : ∀ m : Marker, ¬ m.Straddles a b) :
    tally (a ++ b) = tally a + tally b := by
  have hnone : straddling a b = 0 := by simp only [straddling, h, if_false]; rfl
  rw [tally_append_eq, hnone, add_zero]

/-- The last symbol of a full line is in no marker. -/
theorem tally_append_of_isFullLine {line : List Char} (h : IsFullLine line) (rest : List Char) :
    tally (line ++ rest) = tally line + tally rest := by
  obtain ⟨body, -, ending, hend, rfl⟩ := h
  exact tally_append fun m => m.not_straddles_of_suffix hend (List.suffix_append body ending) rest

/-- Nor is the first symbol of a terminator, which counts nothing itself. -/
theorem tally_append_terminator {ending : List Char} (h : ending ∈ terminators)
    (text : List Char) : tally (text ++ ending) = tally text := by
  have hzero : tally ending = 0 := by rcases mem_terminators.1 h with rfl | rfl | rfl <;> decide
  have hadd : tally (text ++ ending) = tally text + tally ending :=
    tally_append fun m => m.not_straddles_of_isPrefix h List.prefix_rfl text
  rw [hadd, hzero, add_zero]

theorem tally_flatten {pieces : List (List Char)}
    (h : ∀ piece ∈ pieces.dropLast, IsFullLine piece) :
    tally pieces.flatten = (pieces.map tally).sum := by
  induction pieces with
  | nil => rfl
  | cons piece pieces ih =>
    cases pieces with
    | nil => simp
    | cons next pieces =>
      have hfull : IsFullLine piece := h piece (by simp)
      have hrest : ∀ p ∈ (next :: pieces).dropLast, IsFullLine p :=
        fun p hp => h p (by simpa using .inr hp)
      rw [List.flatten_cons, tally_append_of_isFullLine hfull, ih hrest]
      simp only [List.map_cons, List.sum_cons]

end Depths

end DepthGauge
