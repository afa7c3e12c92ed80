import DepthGauge.Proofs.Scan.Snapshot
import DepthGauge.Proofs.Text.NewlineStyle

/-!
# Scans of texts in another newline style

A report does not tell in which style the lines of the text end.

## Main results

* `tally_withLineFeed`: what a line counts does not depend on its terminator.
* `scanText_unifyNewlines`: the report of a text in any style.
-/

namespace DepthGauge

theorem tally_withLineFeed {text line : List Char} (h : line ∈ lines text) :
    Depths.tally (withLineFeed line) = Depths.tally line := by
  rcases (isLineSplit_lines text).isFullLine_or_isBody h with hfull | hbody
  · obtain ⟨body, hbody, ending, hend, rfl⟩ := hfull
    have hlf : ['\n'] ∈ (terminators : List (List Char)) := by simp [terminators, LineSymbol.lf]
    rw [withLineFeed_append hbody hend, Depths.tally_append_terminator hlf,
      Depths.tally_append_terminator hend]
  · rw [withLineFeed_of_isBody hbody]

theorem scanLines_map_withLineFeed (text : List Char) (table : Table) :
    scanLines ((lines text).map withLineFeed) table = scanText text table := by
  refine scanLines_congr ?_ table
  rw [List.map_map]
  exact List.map_congr_left fun _ hline => tally_withLineFeed hline

/-- A text has the lines and the report of its unified text, but for the terminators of the lines. A
text without carriage returns has the same report in each of the two styles that use them. -/
theorem scanText_unifyNewlines (text : List Char) (table : Table) :
    scanText (unifyNewlines text) table = scanText text table ∧
      lines (unifyNewlines text) = (lines text).map withLineFeed ∧
      ∀ u, '\r' ∉ u → scanText (restyle ['\r', '\n'] u) table = scanText u table ∧
        scanText (restyle ['\r'] u) table = scanText u table := by
  have hunified (t : List Char) : scanText (unifyNewlines t) table = scanText t table := by
    rw [scanText, lines_unifyNewlines, scanLines_map_withLineFeed]
  have hrestyled {u ending : List Char} (hend : ending = ['\r', '\n'] ∨ ending = ['\r'])
      (hu : '\r' ∉ u) : scanText (restyle ending u) table = scanText u table := by
    rw [← hunified, unifyNewlines_restyle hend hu]
  exact ⟨hunified text, lines_unifyNewlines text, fun u hu =>
    ⟨hrestyled (.inl rfl) hu, hrestyled (.inr rfl) hu⟩⟩

/-- A lone carriage return in front of a pair, and the three styles without a mixture. -/
theorem scanText_unifyNewlines_pair_behind_return : ∃ table,
    Table.ofEntries [⟨3, "end"⟩] = .ok table ∧
      ∀ text ∈ ["(\r\r\n<div>", "(\n\n<div>", "(\r\n\r\n<div>", "(\r\r<div>"],
        scanText text.toList table = ⟨[⟨3, "end", ⟨0, 1, 1⟩⟩], ⟨0, 1, 1⟩, 3⟩ := by
  obtain ⟨table, h⟩ : ∃ table, Table.ofEntries [⟨3, "end"⟩] = .ok table :=
    Table.ofEntries_isOk_iff.2 (by decide)
  have hplain : scanText "(\n\n<div>".toList table =
      ⟨[⟨3, "end", ⟨0, 1, 1⟩⟩], ⟨0, 1, 1⟩, 3⟩ := by
    have hreached : Checkpoint.reached [⟨3, "end"⟩] 3 = [⟨3, "end"⟩] := by
      simp [Checkpoint.reached]
    rw [scanText_of_reached h (by decide +kernel) hreached]
    decide +kernel
  obtain ⟨hmixed, -, hstyles⟩ := scanText_unifyNewlines "(\r\r\n<div>".toList table
  obtain ⟨hpairs, hreturns⟩ := hstyles "(\n\n<div>".toList (by decide)
  have hunify : unifyNewlines "(\r\r\n<div>".toList = "(\n\n<div>".toList := by decide +kernel
  have hpair : restyle ['\r', '\n'] "(\n\n<div>".toList = "(\r\n\r\n<div>".toList := by
    decide +kernel
  have hreturn : restyle ['\r'] "(\n\n<div>".toList = "(\r\r<div>".toList := by decide +kernel
  rw [hunify] at hmixed
  rw [hpair] at hpairs
  rw [hreturn] at hreturns
  refine ⟨table, h, ?_⟩
  simp only [List.mem_cons, List.not_mem_nil, or_false, forall_eq_or_imp, forall_eq]
  exact ⟨hmixed.symm.trans hplain, hplain, hpairs.trans hplain, hreturns.trans hplain⟩

end DepthGauge
