import DepthGauge.Proofs.Balance.Tally
import DepthGauge.Proofs.Checkpoint.Lookup
import DepthGauge.Scan.Scanner

/-!
# Snapshots

What a scanner holds after some lines: the sum of their depths, their number, and a snapshot of the
sum behind each line that has a checkpoint.

## Main definitions

* `depthsBehind ls n`: the depths behind the first `n` lines.
* `Scanner.HasRead table ls s`: the state of a scanner of a table that has read some lines.

## Main results

* `Scanner.hasRead_foldl`: the state after any lines.
* `scanLines_congr`: lines that count the same have the same report.
* `scanLines_eq`: the report of any lines, with its hits in the order of the checkpoints.
-/

namespace DepthGauge

variable {table : Table} {ls : List (List Char)} {s : Scanner}

def depthsBehind (ls : List (List Char)) (n : Nat) : Depths := ((ls.take n).map Depths.tally).sum

/-- The hit that a line gives if it has a checkpoint. -/
def hitAt? (table : Table) (ls : List (List Char)) (n : Nat) : Option Hit :=
  (table.label? n).map fun label => ⟨n, label, depthsBehind ls n⟩

theorem depthsBehind_append {n : Nat} (hn : n ≤ ls.length) (more : List (List Char)) :
    depthsBehind (ls ++ more) n = depthsBehind ls n := by
  rw [depthsBehind, List.take_append_of_le_length hn, depthsBehind]

/-- Lines that follow leave the hits before them as they are. -/
theorem filterMap_hitAt?_append (table : Table) (ls more : List (List Char)) :
    (List.range' 1 ls.length).filterMap (hitAt? table (ls ++ more)) =
      (List.range' 1 ls.length).filterMap (hitAt? table ls) := by
  apply List.filterMap_congr
  intro n hn
  rw [List.mem_range'_1] at hn
  rw [hitAt?, depthsBehind_append (by omega), hitAt?]

theorem depthsBehind_length (ls : List (List Char)) :
    depthsBehind ls ls.length = (ls.map Depths.tally).sum := by
  rw [depthsBehind, List.take_length]

namespace Scanner

structure HasRead (table : Table) (ls : List (List Char)) (s : Scanner) : Prop where
  sameTable : s.table = table
  depths : s.depths = depthsBehind ls ls.length
  lineNumber : s.lineNumber = ls.length
  hits : s.hits.toList = (List.range' 1 ls.length).filterMap (hitAt? table ls)

theorem hasRead_start (table : Table) : HasRead table [] (.start table) := ⟨rfl, rfl, rfl, rfl⟩

/-- The older snapshots stay, and the new one is of the sum with the new line in it. -/
theorem HasRead.feed (h : HasRead table ls s) (line : List Char) :
    HasRead table (ls ++ [line]) (s.feed line) := by
  have hdepths : s.depths + Depths.tally line = depthsBehind (ls ++ [line]) (ls.length + 1) := by
    rw [h.depths, depthsBehind_length, ← List.length_singleton (a := line), ← List.length_append,
      depthsBehind_length, List.map_append, List.sum_append]
    simp
  refine ⟨by rw [table_feed, h.sameTable], ?_, ?_, ?_⟩
  · rw [depths_feed, hdepths, List.length_append, List.length_singleton]
  · rw [lineNumber_feed, h.lineNumber, List.length_append, List.length_singleton]
  · have hnew : (s.feedLine line).1 = hitAt? table (ls ++ [line]) (ls.length + 1) := by
      rw [fst_feedLine, h.sameTable, h.lineNumber, hdepths, hitAt?]
    rw [hits_feed, h.hits, hnew, List.length_append, List.length_singleton, List.range'_1_concat,
      List.filterMap_append, filterMap_hitAt?_append, Nat.add_comm 1]
    cases hat : hitAt? table (ls ++ [line]) (ls.length + 1) <;> simp [hat]

theorem hasRead_foldl (table : Table) (ls : List (List Char)) :
    HasRead table ls (ls.foldl feed (.start table)) := by
  induction ls using List.reverseRecOn with
  | nil => exact hasRead_start table
  | append_singleton ls line ih =>
    rw [List.foldl_append]
    exact ih.feed line

end Scanner

theorem scanLines_eq_filterMap (table : Table) (ls : List (List Char)) :
    scanLines ls table = ⟨(List.range' 1 ls.length).filterMap (hitAt? table ls),
      depthsBehind ls ls.length, ls.length⟩ := by
  have hread := Scanner.hasRead_foldl table ls
  rw [scanLines, Scanner.finish, hread.hits, hread.depths, hread.lineNumber]

/-- Of a line, a scan sees what it counts. -/
theorem scanLines_congr {x y : List (List Char)} (h : x.map Depths.tally = y.map Depths.tally)
    (table : Table) : scanLines x table = scanLines y table := by
  have hdepths : depthsBehind x = depthsBehind y := by
    funext n
    rw [depthsBehind, depthsBehind, List.map_take, List.map_take, h]
  have hlength : x.length = y.length := by simpa using congrArg List.length h
  have hhit : hitAt? table x = hitAt? table y := by
    funext n
    rw [hitAt?, hitAt?, hdepths]
  rw [scanLines_eq_filterMap, scanLines_eq_filterMap, hhit, hdepths, hlength]

/-- The hit of a checkpoint. -/
def Checkpoint.hit (ls : List (List Char)) (c : Checkpoint) : Hit :=
  ⟨c.line, c.label, depthsBehind ls c.line⟩

def Hit.checkpoint (hit : Hit) : Checkpoint := ⟨hit.line, hit.label⟩

theorem scanLines_eq (h : table.IsIndexed) (ls : List (List Char)) :
    scanLines ls table = ⟨(Checkpoint.reached table.toList ls.length).map (Checkpoint.hit ls),
      depthsBehind ls ls.length, ls.length⟩ := by
  have hhits : (List.range' 1 ls.length).filterMap (hitAt? table ls) =
      (Checkpoint.reached table.toList ls.length).map (Checkpoint.hit ls) := by
    rw [← Table.filterMap_label?_eq_reached h, List.map_filterMap]
    apply List.filterMap_congr
    intro n _
    rw [hitAt?, Option.map_map]
    rfl
  rw [scanLines_eq_filterMap, hhits]

/-- What is reported of a table that was made of checkpoints depends on those that are reached. -/
theorem scanText_of_reached {entries reached : List Checkpoint} {text : List Char} {n : Nat}
    (h : Table.ofEntries entries = .ok table) (hcount : (lines text).length = n)
    (hreached : Checkpoint.reached entries n = reached) : scanText text table =
      ⟨reached.map (Checkpoint.hit (lines text)), depthsBehind (lines text) n, n⟩ := by
  obtain ⟨hindexed, rfl⟩ := Table.of_ofEntries_eq_ok h
  rw [scanText, scanLines_eq hindexed, hcount, hreached]

theorem map_checkpoint_scanLines (h : table.IsIndexed) (ls : List (List Char)) :
    (scanLines ls table).hits.map Hit.checkpoint =
      Checkpoint.reached table.toList ls.length := by
  rw [scanLines_eq h, List.map_map]
  exact List.map_id _

theorem hit_mem_scanLines (h : table.IsIndexed) {c : Checkpoint} (hc : c ∈ table.toList)
    (hline : c.line ≤ ls.length) : c.hit ls ∈ (scanLines ls table).hits := by
  rw [scanLines_eq h]
  exact List.mem_map_of_mem (Checkpoint.mem_reached.2 ⟨hc, hline⟩)

end DepthGauge
