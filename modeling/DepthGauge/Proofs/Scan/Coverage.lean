import DepthGauge.Proofs.Scan.Snapshot

/-!
# Checkpoints of a report

Every checkpoint of a table is in one of two places: among the hits if its line was read, or among
the unreached ones if the text ends before. The hits come from looking up one line after the other,
the unreached ones from the list of the checkpoints, so that each could miss what the other takes
for granted.

## Main definitions

* `Report.Covers report table entries`: the two places together hold the checkpoints of the table.

## Main results

* `perm_hits_append_unreached`: the two places hold all checkpoints.
* `scanLines_covers`: a report covers the checkpoints of its table.
-/

namespace DepthGauge

variable {table : Table} {entries : List Checkpoint}

/-- What was hit, in the order of the lines, and what was not reached, in the order of the
checkpoints, are together the checkpoints of a table, each of them once. -/
structure Report.Covers (report : Report) (table : Table) (entries : List Checkpoint) : Prop where
  perm : (report.hits.map Hit.checkpoint ++ table.unreached report.lineCount).Perm entries
  disjoint : ∀ hit ∈ report.hits, ∀ c ∈ table.unreached report.lineCount, hit.line ≠ c.line
  ascending : report.hits.Pairwise (·.line < ·.line)
  line_bounds : ∀ hit ∈ report.hits, 1 ≤ hit.line ∧ hit.line ≤ report.lineCount
  unreached : table.unreached report.lineCount = entries.filter (report.lineCount < ·.line)
  unreached_eq_nil : table.unreached report.lineCount = [] ↔
    entries = [] ∨ ∃ n, table.maxLine? = some n ∧ n ≤ report.lineCount
  length : report.hits.length + (table.unreached report.lineCount).length = table.size

/-- The hits are for the checkpoints up to the last line. -/
theorem perm_hits_scanLines (h : table.IsIndexed) (ls : List (List Char)) :
    ((scanLines ls table).hits.map Hit.checkpoint).Perm
      (table.toList.filter (·.line ≤ ls.length)) := by
  rw [map_checkpoint_scanLines h]
  exact Checkpoint.reached_perm _ _

theorem perm_hits_append_unreached (h : table.IsIndexed) (ls : List (List Char)) :
    ((scanLines ls table).hits.map Hit.checkpoint ++ table.unreached ls.length).Perm
      table.toList := by
  have hunreached : table.unreached ls.length =
      table.toList.filter fun c => !decide (c.line ≤ ls.length) :=
    List.filter_congr fun c _ => by simp [← decide_not]
  rw [hunreached]
  exact ((perm_hits_scanLines h ls).append_right _).trans (List.filter_append_perm _ _)

theorem covers_of_isIndexed (h : table.IsIndexed) (ls : List (List Char)) :
    (scanLines ls table).Covers table table.toList := by
  have hcount : (scanLines ls table).lineCount = ls.length := by rw [scanLines_eq h]
  have hperm := perm_hits_append_unreached h ls
  have hmem {hit : Hit} (hhit : hit ∈ (scanLines ls table).hits) :
      hit.checkpoint ∈ table.toList ∧ hit.line ≤ ls.length := by
    have hreached := (perm_hits_scanLines h ls).mem_iff.1 (List.mem_map_of_mem hhit)
    exact ⟨(List.mem_filter.1 hreached).1, of_decide_eq_true (List.mem_filter.1 hreached).2⟩
  constructor
  case perm =>
    rw [hcount]
    exact hperm
  case disjoint =>
    intro hit hhit c hc heq
    have hreached := (hmem hhit).2
    have hbehind := (Table.mem_unreached.1 hc).2
    omega
  case ascending =>
    have hlt := Checkpoint.pairwise_reached h.nodup_lines ls.length
    rw [← map_checkpoint_scanLines h ls, List.pairwise_map] at hlt
    exact hlt
  case line_bounds =>
    intro hit hhit
    obtain ⟨hc, hle⟩ := hmem hhit
    exact ⟨Nat.one_le_iff_ne_zero.2 (h.line_ne_zero _ hc), hcount ▸ hle⟩
  case unreached => rfl
  case unreached_eq_nil => exact Table.unreached_eq_nil_iff
  case length =>
    have hlength := hperm.length_eq
    rw [List.length_append, List.length_map, ← hcount] at hlength
    rw [hlength, Table.size_eq]

/-- No checkpoint is lost or reported twice, for any lines and for the lines of any text. -/
theorem scanLines_covers (h : Table.ofEntries entries = .ok table) :
    (∀ ls, (scanLines ls table).lineCount = ls.length ∧
      (scanLines ls table).Covers table entries) ∧
    ∀ text, (scanText text table).lineCount = (lines text).length ∧
      (scanText text table).Covers table entries := by
  obtain ⟨hindexed, rfl⟩ := Table.of_ofEntries_eq_ok h
  have hcovers (ls : List (List Char)) : (scanLines ls table).lineCount = ls.length ∧
      (scanLines ls table).Covers table table.toList :=
    ⟨by rw [scanLines_eq hindexed], covers_of_isIndexed hindexed ls⟩
  exact ⟨hcovers, fun text => hcovers (lines text)⟩

/-- The last line of a text has a checkpoint, and so has the line that would come next. -/
theorem scanLines_covers_edge : ∃ table,
    Table.ofEntries [⟨9, "late"⟩, ⟨3, "last"⟩, ⟨4, "edge"⟩, ⟨1, "first"⟩] = .ok table ∧
      let report := scanText "x\r\ny\rz".toList table
      report.lineCount = 3 ∧ table.unreached 3 = [⟨9, "late"⟩, ⟨4, "edge"⟩] ∧
        (report.hits.map Hit.checkpoint ++ table.unreached 3).Perm
          [⟨9, "late"⟩, ⟨3, "last"⟩, ⟨4, "edge"⟩, ⟨1, "first"⟩] := by
  obtain ⟨table, h⟩ : ∃ table,
      Table.ofEntries [⟨9, "late"⟩, ⟨3, "last"⟩, ⟨4, "edge"⟩, ⟨1, "first"⟩] = .ok table :=
    Table.ofEntries_isOk_iff.2 (by decide)
  obtain ⟨hcount, hcovers⟩ := (scanLines_covers h).2 "x\r\ny\rz".toList
  have hlines : (lines "x\r\ny\rz".toList).length = 3 := by decide +kernel
  have hunreached := hcovers.unreached
  have hperm := hcovers.perm
  rw [hcount, hlines] at hunreached
  rw [hcount, hlines] at hperm
  exact ⟨table, h, hcount.trans hlines, hunreached, hperm⟩

end DepthGauge
