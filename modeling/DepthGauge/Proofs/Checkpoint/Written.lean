import DepthGauge.Proofs.Checkpoint.Numeral

/-!
# Checkpoints that are read and written

Reading a checkpoint takes its text apart at the first equals sign. What can be read is what can be
written: a line number from one to the greatest, and a label that does not start or end with white
space.

## Main definitions

* `Checkpoint.IsWritable`: the checkpoints that can be written as text.

## Main results

* `Checkpoint.parse_eq_ok_iff`: what a text that is read looks like.
* `Checkpoint.IsWritable.parse_eq_ok`: what is written is read as it was.
-/

namespace DepthGauge

namespace Checkpoint

/-! ## Reading -/

variable {arg : String} {c : Checkpoint} {before after : List Char}

/-- The first equals sign divides the number from the label. -/
theorem parse_of_toList_eq (harg : arg.toList = before ++ '=' :: after) (hbefore : '=' ∉ before) :
    parse arg = match readLineNumber? (trim before) with
      | none => .error (.badNumber (String.ofList (trim before)))
      | some 0 => .error .zeroLine
      | some line =>
        if trim after = [] then .error (.noLabel line)
        else .ok ⟨line, String.ofList (trim after)⟩ := by
  have hdrop : arg.toList.dropWhile (· ≠ '=') = '=' :: after := by
    rw [harg, dropWhile_ne_append_cons hbefore]
  have htake : arg.toList.takeWhile (· ≠ '=') = before := by
    rw [harg, takeWhile_ne_append_cons hbefore]
  cases hline : readLineNumber? (trim before) with
  | none => simp only [parse, hdrop, htake, hline]
  | some line => cases line <;> simp only [parse, hdrop, htake, hline]

theorem parse_of_not_mem (h : '=' ∉ arg.toList) : parse arg = .error (.noEquals arg) := by
  have hdrop : arg.toList.dropWhile (· ≠ '=') = [] := by
    simpa [List.dropWhile_eq_nil_iff] using fun x hx (heq : x = '=') => h (heq ▸ hx)
  simp only [parse, hdrop]

theorem parse_eq_ok_iff : parse arg = .ok c ↔
    ∃ before after, arg.toList = before ++ '=' :: after ∧ '=' ∉ before ∧
      readLineNumber? (trim before) = some c.line ∧ c.line ≠ 0 ∧
      trim after = c.label.toList ∧ c.label ≠ "" := by
  constructor
  · intro h
    by_cases hmem : '=' ∈ arg.toList
    · obtain ⟨before, after, harg, hbefore⟩ := List.eq_append_cons_of_mem hmem
      rw [parse_of_toList_eq harg hbefore] at h
      refine ⟨before, after, harg, hbefore, ?_⟩
      split at h
      · cases h
      · cases h
      · next line hzero hline =>
        split at h
        · cases h
        · next hlabel =>
          cases h
          exact ⟨hline, hzero, String.toList_ofList.symm,
            fun heq => hlabel (by simpa using congrArg String.toList heq)⟩
    · rw [parse_of_not_mem hmem] at h
      cases h
  · rintro ⟨before, after, harg, hbefore, hline, hzero, hafter, hlabel⟩
    have hne : c.label.toList ≠ [] := by simpa using hlabel
    rw [parse_of_toList_eq harg hbefore, hline]
    split
    · next hnone => cases hnone
    · next hline' => exact absurd (Option.some.inj hline') hzero
    · next line _ hline' =>
      obtain rfl := Option.some.inj hline'
      simp [hafter, hne]

/-- A text stands for the checkpoint that is read from it. -/
def IsReadFrom (c : Checkpoint) (arg : String) : Prop := parse arg = .ok c

/-- What is read starts with neither an equals sign nor a dash. -/
theorem head?_of_parse_eq_ok (h : parse arg = .ok c) :
    ∃ x, arg.toList.head? = some x ∧ x ≠ '=' ∧ x ≠ '-' := by
  obtain ⟨before, after, harg, hbefore, hline, -⟩ := parse_eq_ok_iff.1 h
  obtain ⟨y, hy, hfirst⟩ := head?_of_readLineNumber?_eq_some hline
  cases before with
  | nil => simp at hy
  | cons x before =>
    refine ⟨x, by simp [harg], fun heq => hbefore (by simp [heq]), ?_⟩
    rintro rfl
    obtain rfl : '-' = y := by simpa [head?_trim_cons (c := '-') (by decide)] using hy
    simp at hfirst

/-! ## Writing -/

/-- The checkpoints that can be written as text. -/
structure IsWritable (c : Checkpoint) : Prop where
  one_le_line : 1 ≤ c.line
  line_le : c.line ≤ maxLineNumber
  label_ne : c.label ≠ ""
  isTrimmed_label : IsTrimmed c.label.toList

theorem isWritable_of_parse_eq_ok (h : parse arg = .ok c) : c.IsWritable := by
  obtain ⟨before, after, -, -, hline, hzero, hafter, hlabel⟩ := parse_eq_ok_iff.1 h
  exact ⟨Nat.one_le_iff_ne_zero.2 hzero, readLineNumber?_le hline, hlabel,
    hafter ▸ isTrimmed_trim after⟩

theorem IsWritable.parse_eq_ok (h : c.IsWritable) : parse s!"{c.line}={c.label}" = .ok c := by
  have harg : s!"{c.line}={c.label}" = c.line.repr ++ "=" ++ c.label := rfl
  have hnumber : trim c.line.repr.toList = c.line.repr.toList :=
    trim_eq_self (isTrimmed_of_forall fun x hx => isBlank_of_isDigit (isDigit_of_mem_repr hx))
  refine parse_eq_ok_iff.2 ⟨c.line.repr.toList, c.label.toList, ?_, not_mem_repr (by decide) _, ?_,
    Nat.one_le_iff_ne_zero.1 h.one_le_line, trim_eq_self h.isTrimmed_label, h.label_ne⟩
  · rw [harg]
    simp
  · rw [hnumber]
    exact readLineNumber?_repr h.line_le

end Checkpoint

end DepthGauge
