import DepthGauge.Proofs.Text.LineSplit
import Mathlib.Tactic.ByContra

/-!
# Lines of joined texts

Two texts that are joined keep their lines if the border between them is one of lines. If it is not,
the last line of the first text and the first line of the second become one.

## Main definitions

* `IsLineBorder a b`: no line goes across the border of the two texts.
* `HoldsPlace pieces n i`: the piece that a place of the joined pieces is in.

## Main results

* `lines_append_of_isLineBorder`, `lines_append_of_not_isLineBorder`: the lines of joined texts.
* `holdsPlace_terminatorCount`: the line that goes on where a text ends.
-/

namespace DepthGauge

open LineSymbol

/-! ## Places in joined pieces -/

section Places

variable {α : Type} {pieces : List (List α)}

/-- The piece with the number `n`, counted from one, holds the symbol at place `i` of the joined
pieces. -/
def HoldsPlace (pieces : List (List α)) (n i : Nat) : Prop :=
  n ≠ 0 ∧ (pieces.take (n - 1)).flatten.length ≤ i ∧ i < (pieces.take n).flatten.length

theorem HoldsPlace.unique {m n i : Nat} (hm : HoldsPlace pieces m i) (hn : HoldsPlace pieces n i) :
    m = n := by
  have hmono {j k : Nat} (h : j ≤ k) :
      (pieces.take j).flatten.length ≤ (pieces.take k).flatten.length := by
    obtain ⟨more, hmore⟩ := List.take_prefix_take_left h (l := pieces)
    rw [← hmore, List.flatten_append, List.length_append]
    omega
  obtain ⟨-, hm, hm'⟩ := hm
  obtain ⟨-, hn, hn'⟩ := hn
  rcases Nat.lt_trichotomy m n with h | h | h
  · have := hmono (by omega : m ≤ n - 1)
    omega
  · exact h
  · have := hmono (by omega : n ≤ m - 1)
    omega

theorem HoldsPlace.le_length {n i : Nat} (h : HoldsPlace pieces n i) : n ≤ pieces.length := by
  by_contra hlt
  obtain ⟨-, hle, hlt'⟩ := h
  rw [List.take_of_length_le (by omega)] at hle hlt'
  omega

theorem holdsPlace_append {init rest : List (List α)} {piece : List α} {i : Nat}
    (hle : init.flatten.length ≤ i) (hlt : i < init.flatten.length + piece.length) :
    HoldsPlace (init ++ piece :: rest) (init.length + 1) i := by
  have htake : (init ++ piece :: rest).take (init.length + 1) = init ++ [piece] := by
    rw [List.append_cons, List.take_left' (by simp)]
  refine ⟨by omega, by simpa using hle, ?_⟩
  rw [htake]
  simpa using hlt

end Places

/-! ## Borders -/

variable {α : Type} [LineSymbol α] {a b : List α}

/-- Nothing stands on one side, or a line ends on the left. A lone carriage return ends one only if
no line feed follows. -/
def IsLineBorder (a b : List α) : Prop :=
  a = [] ∨ b = [] ∨ a.getLast? = some lf ∨ a.getLast? = some cr ∧ b.head? ≠ some lf

/-- Symbols further to the left do not matter. -/
theorem isLineBorder_cons {c : α} (ha : a ≠ []) : IsLineBorder (c :: a) b ↔ IsLineBorder a b := by
  simp only [IsLineBorder, List.getLast?_cons_of_ne_nil ha, ha, reduceCtorEq]

variable [DecidableEq α]

theorem head?_of_lines_eq_cons {line : List α} {ls : List (List α)} (h : lines b = line :: ls) :
    line.head? = b.head? := by
  have hsplit := isLineSplit_lines b
  rw [h] at hsplit
  exact hsplit.head?_eq

/-- Only the first line tells whether a symbol becomes a part of it. -/
theorem attach_append {ls : List (List α)} (h : ls ≠ []) (c : α) (more : List (List α)) :
    attach c (ls ++ more) = attach c ls ++ more := by
  obtain ⟨line, rest, rfl⟩ := List.exists_cons_of_ne_nil h
  simp only [List.cons_append, attach]
  split <;> rfl

theorem lines_append_of_isLineBorder (h : IsLineBorder a b) :
    lines (a ++ b) = lines a ++ lines b := by
  induction a with
  | nil => rfl
  | cons c a ih =>
    by_cases ha : a = []
    · subst ha
      cases hb : lines b with
      | nil => simp [lines_eq_nil_iff.1 hb]
      | cons first rest =>
        have hhead := head?_of_lines_eq_cons hb
        have hne : b ≠ [] := by grind [lines_eq_nil_iff]
        have hc : c = lf ∨ c = cr ∧ first.head? ≠ some lf := by
          simpa [IsLineBorder, hne, hhead] using h
        simp [lines_cons, hb, attach, hc]
    · rw [List.cons_append, lines_cons, lines_cons, ih ((isLineBorder_cons ha).1 h),
        attach_append (mt lines_eq_nil_iff.1 ha)]

/-- Across the border, the last line of the left text goes on with the first one of the right. -/
theorem lines_append_of_not_isLineBorder (h : ¬ IsLineBorder a b) {first : List α}
    {rest : List (List α)} (hb : lines b = first :: rest) :
    ∃ init last, lines a = init ++ [last] ∧ lines (a ++ b) = init ++ (last ++ first) :: rest := by
  induction a with
  | nil => exact absurd (.inl rfl) h
  | cons c a ih =>
    by_cases ha : a = []
    · subst ha
      refine ⟨[], [c], rfl, ?_⟩
      have hhead := head?_of_lines_eq_cons hb
      have hc : ¬ (c = lf ∨ c = cr ∧ first.head? ≠ some lf) := by
        grind [IsLineBorder]
      simp [lines_cons, hb, attach, hc]
    · obtain ⟨init, last, hlines, hjoined⟩ := ih (mt (isLineBorder_cons ha).2 h)
      rw [List.cons_append, lines_cons, lines_cons, hlines, hjoined]
      -- The symbol in front can only join the first line, which may also be the last.
      by_cases hinit : init = []
      · subst hinit
        have hlast : last ≠ [] := fun hlast => ne_nil_of_mem_lines a (by simp [hlines, hlast])
        have hhead : (last ++ first).head? = last.head? := List.head?_append_of_ne_nil last hlast
        simp only [List.nil_append, attach, hhead]
        split
        · exact ⟨[[c]], last, rfl, rfl⟩
        · exact ⟨[], c :: last, rfl, rfl⟩
      · rw [attach_append hinit, attach_append hinit]
        exact ⟨attach c init, last, rfl, rfl⟩

/-! ## The number of terminators -/

section LastLine

variable {init : List (List α)} {last : List α}

theorem getLast?_of_lines_eq_concat (h : lines a = init ++ [last]) :
    last.getLast? = a.getLast? := by
  have hlast : last ≠ [] := fun hlast => ne_nil_of_mem_lines a (by simp [h, hlast])
  rw [← flatten_lines a, h, List.flatten_append, List.flatten_singleton,
    List.getLast?_append_of_ne_nil _ hlast]

/-- Only the last line may lack a terminator. -/
theorem terminatorCount_eq (h : lines a = init ++ [last]) :
    terminatorCount a = init.length + if isTerminated last then 1 else 0 := by
  have hfull : ∀ line ∈ init, isTerminated line = true := by
    intro line hline
    exact ((isLineSplit_lines a).full line (by simpa [h] using hline)).isTerminated
  rw [terminatorCount, h, List.countP_append, List.countP_eq_length.2 hfull, List.countP_singleton]

end LastLine

/-! ## The line of a place -/

/-- A text that is continued goes on in the line behind its terminators. -/
theorem holdsPlace_terminatorCount {c : α} (hc : c ≠ lf ∧ c ≠ cr) (b : List α) :
    HoldsPlace (lines (a ++ c :: b)) (terminatorCount a + 1) a.length := by
  obtain ⟨first, rest, hb⟩ : ∃ first rest, lines (c :: b) = first :: rest :=
    List.exists_cons_of_ne_nil (by simp)
  have hfirst : 0 < first.length :=
    List.length_pos_of_ne_nil fun h => ne_nil_of_mem_lines (c :: b) (by simp [hb, h])
  rcases List.eq_nil_or_concat (lines a) with ha | ⟨init, last, ha⟩
  · obtain rfl := lines_eq_nil_iff.1 ha
    have hplace : HoldsPlace ([] ++ first :: rest) (0 + 1) 0 :=
      holdsPlace_append (by simp) (by simpa using hfirst)
    simpa [hb, terminatorCount] using hplace
  rw [List.concat_eq_append] at ha
  have hlength : a.length = init.flatten.length + last.length := by
    conv_lhs => rw [← flatten_lines a, ha]
    simp
  have hlast : isTerminated last = true ↔ a.getLast? = some lf ∨ a.getLast? = some cr := by
    rw [isTerminated_iff, getLast?_of_lines_eq_concat ha]
  rw [terminatorCount_eq ha]
  -- The new symbol starts a line if the last one is complete, and goes on with it if not.
  by_cases ht : isTerminated last = true
  · have hborder : IsLineBorder a (c :: b) := by grind [IsLineBorder]
    rw [lines_append_of_isLineBorder hborder, hb, if_pos ht, ← List.length_singleton (a := last),
      ← List.length_append, ← ha]
    exact holdsPlace_append (by simp) (by simpa using hfirst)
  · have hborder : ¬ IsLineBorder a (c :: b) := by
      have hne : a ≠ [] := mt lines_eq_nil_iff.2 (by simp [ha])
      grind [IsLineBorder]
    obtain ⟨init', last', ha', hjoined⟩ := lines_append_of_not_isLineBorder hborder hb
    obtain ⟨rfl, hlast'⟩ := List.append_inj' (ha.symm.trans ha') rfl
    obtain rfl : last = last' := by simpa using hlast'
    rw [hjoined, if_neg ht]
    exact holdsPlace_append (by omega) (by rw [List.length_append]; omega)

end DepthGauge
