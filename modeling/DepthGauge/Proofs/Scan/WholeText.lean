import DepthGauge.Proofs.Scan.Snapshot

/-!
# Reports of whole texts

A scan counts line by line. Its report is the one that is read off the text as a whole: the depths
at a checkpoint are those of everything up to the end of its line, taken as one text.

## Main definitions

* `textBetween text i j`: the text behind line `i` up to the end of line `j`.
* `Report.ofPrefixes text entries`: the report of a text by its prefixes.

## Main results

* `scanText_eq_ofPrefixes`: the report of a scan is that one.
-/

namespace DepthGauge

def textBetween (text : List Char) (i j : Nat) : List Char :=
  (((lines text).take j).drop i).flatten

/-- The checkpoints that the text reaches, each with the depths of the text up to the end of its
line. Nothing is counted line by line. -/
def Report.ofPrefixes (text : List Char) (entries : List Checkpoint) : Report where
  hits := (Checkpoint.reached entries (lines text).length).map fun c =>
    ⟨c.line, c.label, Depths.tally (textBetween text 0 c.line)⟩
  finalDepths := Depths.tally text
  lineCount := (lines text).length

theorem tally_textBetween (text : List Char) (i j : Nat) :
    Depths.tally (textBetween text i j) =
      ((((lines text).take j).drop i).map Depths.tally).sum := by
  apply Depths.tally_flatten
  intro piece hpiece
  rw [List.dropLast_drop_eq_drop_dropLast, List.dropLast_take_eq_take_dropLast] at hpiece
  exact (isLineSplit_lines text).full piece (List.mem_of_mem_take (List.mem_of_mem_drop hpiece))

theorem depthsBehind_lines (text : List Char) (n : Nat) :
    depthsBehind (lines text) n = Depths.tally (textBetween text 0 n) := by
  rw [tally_textBetween, List.drop_zero, depthsBehind]

theorem depthsBehind_lines_length (text : List Char) :
    depthsBehind (lines text) (lines text).length = Depths.tally text := by
  rw [depthsBehind_lines, textBetween, List.drop_zero, List.take_length, flatten_lines]

/-- The lines between two places make the difference. -/
theorem depthsBehind_sub {i j : Nat} (hij : i ≤ j) (ls : List (List Char)) :
    depthsBehind ls j - depthsBehind ls i = (((ls.take j).drop i).map Depths.tally).sum := by
  have hsplit : ls.take j = ls.take i ++ (ls.take j).drop i := by
    rw [← Nat.min_eq_left hij, ← List.take_take, Nat.min_eq_left hij, List.take_append_drop]
  rw [depthsBehind, depthsBehind, sub_eq_iff_eq_add']
  conv_lhs => rw [hsplit, List.map_append, List.sum_append]

/-- Counting line by line loses and invents nothing. The hits are the checkpoints up to the last
line, in the order of their lines, and two of them differ by what the text between them counts. -/
theorem scanText_eq_ofPrefixes {entries : List Checkpoint} {table : Table}
    (h : Table.ofEntries entries = .ok table) (text : List Char) :
    scanText text table = Report.ofPrefixes text entries ∧
      (scanText text table).hits.Pairwise (·.line < ·.line) ∧
      ∀ a ∈ (scanText text table).hits, ∀ b ∈ (scanText text table).hits, a.line < b.line →
        b.depths - a.depths = Depths.tally (textBetween text a.line b.line) := by
  obtain ⟨hindexed, rfl⟩ := Table.of_ofEntries_eq_ok h
  have hscan : scanText text table = _ := scanLines_eq hindexed (lines text)
  refine ⟨?_, ?_, ?_⟩
  · have hhit : Checkpoint.hit (lines text) =
        fun c => ⟨c.line, c.label, Depths.tally (textBetween text 0 c.line)⟩ := by
      funext c
      rw [Checkpoint.hit, depthsBehind_lines]
    simp only [hscan, Report.ofPrefixes, hhit, depthsBehind_lines_length]
  · rw [hscan]
    exact List.pairwise_map.2 (Checkpoint.pairwise_reached hindexed.nodup_lines _)
  · rw [hscan]
    intro a ha b hb hab
    obtain ⟨c, -, rfl⟩ := List.mem_map.1 ha
    obtain ⟨d, -, rfl⟩ := List.mem_map.1 hb
    rw [tally_textBetween]
    exact depthsBehind_sub (Nat.le_of_lt hab) (lines text)

/-- A table out of order, with a checkpoint behind the end, on a text with all three terminators. -/
theorem scanText_eq_ofPrefixes_unordered : ∃ table,
    Table.ofEntries [⟨3, "third"⟩, ⟨9, "late"⟩, ⟨1, "first"⟩] = .ok table ∧
      scanText "<div>\x7b(\r\n<d\riv></div>\x7d\n)".toList table =
        ⟨[⟨1, "first", ⟨1, 1, 1⟩⟩, ⟨3, "third", ⟨0, 1, 0⟩⟩], ⟨0, 0, 0⟩, 4⟩ := by
  obtain ⟨table, h⟩ : ∃ table,
      Table.ofEntries [⟨3, "third"⟩, ⟨9, "late"⟩, ⟨1, "first"⟩] = .ok table :=
    Table.ofEntries_isOk_iff.2 (by decide)
  refine ⟨table, h, ?_⟩
  have hcount : (lines "<div>\x7b(\r\n<d\riv></div>\x7d\n)".toList).length = 4 := by decide +kernel
  have hreached : Checkpoint.reached [⟨3, "third"⟩, ⟨9, "late"⟩, ⟨1, "first"⟩] 4 =
      [⟨1, "first"⟩, ⟨3, "third"⟩] := by
    rw [Checkpoint.reached]
    simp [List.filter, List.mergeSort]
  rw [(scanText_eq_ofPrefixes h _).1, Report.ofPrefixes, hcount, hreached]
  decide +kernel

end DepthGauge
