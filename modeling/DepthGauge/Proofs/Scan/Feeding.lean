import DepthGauge.Proofs.Scan.Snapshot

/-!
# Feeding a scanner

A scanner can be watched while it is fed. After every feed it shows the report of the lines so far.
What it has recorded stays, and a hit that it gives out is the one that it records last.

## Main definitions

* `Scanner.after table feeds`: the state after some feeds.
* `Scanner.Shows table feeds s`: what a state tells of these feeds.

## Main results

* `Scanner.prefix_hits_foldl`: feeding never changes what was recorded.
* `Scanner.HasRead.shows`: the state after feeds shows the sums and the snapshots of them.
* `Scanner.after_shows`: the two of them along a run, with what the next feed gives out.
-/

namespace DepthGauge.Scanner

variable {table : Table} {entries : List Checkpoint} {feeds : List (List Char)} {s : Scanner}

def after (table : Table) (feeds : List (List Char)) : Scanner := feeds.foldl feed (.start table)

theorem hasRead_after (table : Table) (feeds : List (List Char)) :
    HasRead table feeds (after table feeds) :=
  hasRead_foldl table feeds

theorem depths_after (table : Table) (feeds : List (List Char)) :
    (after table feeds).depths = (feeds.map Depths.tally).sum :=
  (hasRead_after table feeds).depths.trans (depthsBehind_length feeds)

theorem after_append (table : Table) (feeds more : List (List Char)) :
    after table (feeds ++ more) = more.foldl feed (after table feeds) :=
  List.foldl_append

/-! ## What was recorded -/

theorem prefix_hits_foldl (s : Scanner) (feeds : List (List Char)) :
    s.hits.toList <+: (feeds.foldl feed s).hits.toList := by
  induction feeds generalizing s with
  | nil => exact List.prefix_rfl
  | cons line feeds ih =>
    have hstep : s.hits.toList <+: (s.feed line).hits.toList := by
      rw [hits_feed]
      exact List.prefix_append _ _
    exact hstep.trans (ih (s.feed line))

theorem prefix_hits_after (table : Table) (feeds : List (List Char)) (k : Nat) :
    (after table (feeds.take k)).hits.toList <+: (after table feeds).hits.toList := by
  have hfeeds := after_append table (feeds.take k) (feeds.drop k)
  rw [List.take_append_drop] at hfeeds
  rw [hfeeds]
  exact prefix_hits_foldl _ _

theorem line_of_feedLine {line : List Char} {hit : Hit} (h : (s.feedLine line).1 = some hit) :
    hit.line = s.lineNumber + 1 := by
  rw [fst_feedLine] at h
  obtain ⟨label, -, rfl⟩ := Option.map_eq_some_iff.1 h
  rfl

/-- A hit that is given out is recorded behind the others. -/
theorem back?_hits_feed {line : List Char} {hit : Hit} (h : (s.feedLine line).1 = some hit) :
    (s.feed line).hits.back? = some hit := by
  rw [← Array.getLast?_toList, hits_feed, h]
  simp

/-! ## The state after feeds -/

/-- A state tells the number of the feeds, their sum, and for each of them that has a checkpoint the
label and the sum up to it, in order. The report that it gives tells the same. -/
structure Shows (table : Table) (feeds : List (List Char)) (s : Scanner) : Prop where
  lineNumber : s.lineNumber = feeds.length
  depths : s.depths = (feeds.map Depths.tally).sum
  lines : s.hits.toList.map Hit.line = (List.range' 1 feeds.length).filter table.contains
  snapshot : ∀ hit ∈ s.hits.toList, table.label? hit.line = some hit.label ∧
    hit.depths = ((feeds.take hit.line).map Depths.tally).sum
  finish : s.finish = scanLines feeds table
  finish_hits : s.finish.hits = (List.range' 1 feeds.length).filterMap fun n =>
    (table.label? n).map fun label => ⟨n, label, ((feeds.take n).map Depths.tally).sum⟩
  finish_depths : s.finish.finalDepths = (feeds.map Depths.tally).sum
  finish_lineCount : s.finish.lineCount = feeds.length

theorem map_line_filterMap_hitAt? (h : table.IsIndexed) (ls : List (List Char))
    (numbers : List Nat) :
    (numbers.filterMap (hitAt? table ls)).map Hit.line = numbers.filter table.contains := by
  have hline (n : Nat) : (hitAt? table ls n).map Hit.line = Option.guard table.contains n := by
    rw [Option.guard, ← h.isSome_label?, hitAt?]
    cases table.label? n <;> rfl
  rw [List.map_filterMap, ← List.filterMap_eq_filter]
  exact List.filterMap_congr fun n _ => hline n

theorem HasRead.shows (h : HasRead table feeds s) (hindexed : table.IsIndexed) :
    s.Shows table feeds where
  lineNumber := h.lineNumber
  depths := h.depths.trans (depthsBehind_length feeds)
  lines := by rw [h.hits, map_line_filterMap_hitAt? hindexed]
  snapshot := by
    intro hit hmem
    rw [h.hits] at hmem
    obtain ⟨n, -, hat⟩ := List.mem_filterMap.1 hmem
    obtain ⟨label, hlabel, rfl⟩ := Option.map_eq_some_iff.1 hat
    exact ⟨hlabel, rfl⟩
  finish := by rw [finish, h.hits, h.depths, h.lineNumber, scanLines_eq_filterMap]
  finish_hits := h.hits
  finish_depths := h.depths.trans (depthsBehind_length feeds)
  finish_lineCount := h.lineNumber

/-- After any feeds, whatever they hold, a scanner shows what a scan of them reports, and the
snapshots of every earlier moment. One more feed gives out a hit if its number has a checkpoint, and
this hit is then the newest one. -/
theorem after_shows (h : Table.ofEntries entries = .ok table) (feeds : List (List Char)) :
    (after table feeds).Shows table feeds ∧
      (∀ k, (after table (feeds.take k)).hits.toList <+: (after table feeds).hits.toList) ∧
      ∀ line, ((after table feeds).feedLine line).2 = after table (feeds ++ [line]) ∧
        ((after table feeds).feedLine line).1.isSome = table.contains (feeds.length + 1) ∧
        ∀ hit, ((after table feeds).feedLine line).1 = some hit →
          hit.line = feeds.length + 1 ∧ (after table (feeds ++ [line])).hits.back? = some hit := by
  obtain ⟨hindexed, -⟩ := Table.of_ofEntries_eq_ok h
  have hread := hasRead_after table feeds
  refine ⟨hread.shows hindexed, prefix_hits_after table feeds, fun line => ?_⟩
  have hnext : (after table feeds).feed line = after table (feeds ++ [line]) :=
    (after_append table feeds [line]).symm
  refine ⟨hnext, ?_, fun hit hhit => ⟨?_, ?_⟩⟩
  · rw [fst_feedLine, Option.isSome_map, hread.sameTable, hread.lineNumber, hindexed.isSome_label?]
  · rw [line_of_feedLine hhit, hread.lineNumber]
  · rw [← hnext]
    exact back?_hits_feed hhit

/-- A checkpoint on an empty feed, a terminator inside another one, and a hit on the last feed. -/
theorem after_shows_middle : ∃ table,
    Table.ofEntries [⟨4, "late"⟩, ⟨2, "middle"⟩] = .ok table ∧
      let feeds := ["(\n\x7b".toList, [], "<div".toList]
      (after table feeds).lineNumber = 3 ∧ (after table feeds).depths = ⟨1, 1, 1⟩ ∧
        (after table (feeds.take 2)).hits.toList <+: (after table feeds).hits.toList ∧
        ((after table feeds).feedLine ")".toList).1.isSome = true := by
  obtain ⟨table, h⟩ : ∃ table, Table.ofEntries [⟨4, "late"⟩, ⟨2, "middle"⟩] = .ok table :=
    Table.ofEntries_isOk_iff.2 (by decide)
  obtain ⟨hindexed, hlist⟩ := Table.of_ofEntries_eq_ok h
  obtain ⟨hshows, hprefix, hnext⟩ := after_shows h ["(\n\x7b".toList, [], "<div".toList]
  refine ⟨table, h, hshows.lineNumber, hshows.depths.trans (by decide +kernel), hprefix 2, ?_⟩
  rw [(hnext ")".toList).2.1]
  exact hindexed.contains_iff.2 ⟨⟨4, "late"⟩, by simp [hlist], rfl⟩

end DepthGauge.Scanner
