import DepthGauge.Proofs.Output.Readable
import Mathlib.Algebra.GroupWithZero.Nat

/-!
# Reports read line by line

Who reads a printed report by its lines finds one for each hit and one for the final depths, as long
as no label holds a line end. A line end in a label is printed as it is and makes one line more.

## Main definitions

* `PrintsLines bytes ls`: the bytes are these lines, and no line holds another one.

## Main results

* `PrintsLines.unique`, `exists_printsLines`: what ends with a line end has lines, in one way.
* `Report.printsLines_iff`: when the lines of a report are its hits and its final depths.
* `Report.exists_printsLines`: how many lines there are in any case.
-/

namespace DepthGauge

structure PrintsLines (bytes : List UInt8) (ls : List String) : Prop where
  bytes_eq : bytes = Utf8.encode (endLines ls)
  single : ∀ line ∈ ls, '\n' ∉ line.toList

/-! ## Lines of a text -/

theorem exists_endLines_eq (text : List Char) :
    ∃ ls, endLines ls = text ++ ['\n'] ∧ ∀ line ∈ ls, '\n' ∉ line.toList := by
  induction text with
  | nil => exact ⟨[""], by simp [endLines], by simp⟩
  | cons c text ih =>
    obtain ⟨ls, hls, hsingle⟩ := ih
    by_cases hc : c = '\n'
    · exact ⟨"" :: ls, by simp [endLines_cons, hls, hc], by simpa using hsingle⟩
    · -- The character goes in front of the first line, which there is.
      cases ls with
      | nil => simp [endLines] at hls
      | cons line ls =>
        rw [endLines_cons] at hls
        simp only [List.mem_cons, forall_eq_or_imp] at hsingle
        refine ⟨String.ofList (c :: line.toList) :: ls, by simp [endLines_cons, hls], ?_⟩
        simpa [Ne.symm hc, hsingle.1] using hsingle.2

theorem count_endLines (ls : List String) :
    (endLines ls).count '\n' = ls.length + (ls.map fun line => line.toList.count '\n').sum := by
  induction ls with
  | nil => rfl
  | cons line ls ih =>
    rw [endLines_cons, List.count_append, List.count_cons_self, ih, List.length_cons, List.map_cons,
      List.sum_cons]
    omega

namespace PrintsLines

variable {bytes : List UInt8} {x y : List String} {text : List Char}

theorem unique (hx : PrintsLines bytes x) (hy : PrintsLines bytes y) : x = y :=
  endLines_injective hx.single hy.single
    (Utf8.encode_injective (hx.bytes_eq.symm.trans hy.bytes_eq))

theorem length_eq (h : PrintsLines (Utf8.encode text) x) : x.length = text.count '\n' := by
  have hzero : (x.map fun line => line.toList.count '\n').sum = 0 := by
    rw [List.sum_eq_zero_iff_forall_eq_nat]
    simpa [List.count_eq_zero] using h.single
  rw [Utf8.encode_injective h.bytes_eq, count_endLines, hzero, Nat.add_zero]

end PrintsLines

theorem exists_printsLines (text : List Char) :
    ∃ ls, PrintsLines (Utf8.encode (text ++ ['\n'])) ls := by
  obtain ⟨ls, hls, hsingle⟩ := exists_endLines_eq text
  exact ⟨ls, by rw [hls], hsingle⟩

/-! ## Lines of a report -/

/-- The first letter tells the line of a hit from the one of the final depths. -/
theorem Hit.not_prefix_format (hit : Hit) : ¬ "Final state: ".toList <+: hit.format.toList := by
  rw [Hit.toList_format]
  simp

namespace Report

theorem count_text (report : Report) : report.text.toList.count '\n' =
    report.hits.length + 1 + (report.hits.map fun hit => hit.label.toList.count '\n').sum := by
  have hfinal : report.finalDepths.formatFinal.toList.count '\n' = 0 :=
    List.count_eq_zero.2 report.finalDepths.newline_not_mem_formatFinal
  simp [toList_text, count_endLines, outputLines, hfinal, Function.comp_def,
    Hit.count_newline_format]

theorem printsLines_iff (report : Report) :
    PrintsLines (Utf8.encode report.text.toList) report.outputLines ↔
      ∀ hit ∈ report.hits, '\n' ∉ hit.label.toList := by
  rw [← newline_not_mem_outputLines_iff]
  exact ⟨fun h => h.single, fun h => ⟨by rw [toList_text], h⟩⟩

/-- A report is printed in lines, one more than those of its hits and its final depths for each line
end in a label. -/
theorem exists_printsLines (report : Report) :
    ∃ ls, PrintsLines (Utf8.encode report.text.toList) ls ∧ ls.length =
      report.hits.length + 1 + (report.hits.map fun hit => hit.label.toList.count '\n').sum := by
  obtain ⟨ls, hls⟩ : ∃ ls, PrintsLines (Utf8.encode report.text.toList) ls := by
    have hend : report.text.toList =
        (hitLines report.hits ++ report.finalDepths.formatFinal).toList ++ ['\n'] := by
      simp [text]
    rw [hend]
    exact DepthGauge.exists_printsLines _
  exact ⟨ls, hls, by rw [hls.length_eq, count_text]⟩

end Report

end DepthGauge
