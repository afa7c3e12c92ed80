import DepthGauge.Proofs.Scan.WholeText
import DepthGauge.Proofs.Text.Border

/-!
# Scans of joined texts

A scan of two texts that are joined where a line ends is a scan of the first, followed by one of the
second with the checkpoints that are left. What comes later never changes a hit.

## Main definitions

* `Checkpoint.behind entries n`: the checkpoints behind line `n`, their lines counted from there.
* `Report.followedBy`: the report of one part of a text and then of the next.

## Main results

* `scanLines_append`: the report of the lines of two parts.
* `filter_hits`: the hits up to a line are those of the lines up to it.
* `scanText_append`: the report of two joined texts.
-/

namespace DepthGauge

variable {entries : List Checkpoint} {table later : Table} {x y : List (List Char)}

/-! ## The checkpoints that are left -/

def Checkpoint.behind (entries : List Checkpoint) (n : Nat) : List Checkpoint :=
  (entries.filter (n < ·.line)).map fun c => ⟨c.line - n, c.label⟩

namespace Table

theorem exists_ofEntries_behind (h : ofEntries entries = .ok table) (n : Nat) :
    ∃ later, ofEntries (Checkpoint.behind entries n) = .ok later := by
  obtain ⟨-, hnodup⟩ := ofEntries_isOk_iff.1 ⟨table, h⟩
  have hleft : ((entries.filter (n < ·.line)).map Checkpoint.line).Nodup :=
    hnodup.sublist (List.filter_sublist.map _)
  have hline : ∀ line ∈ (entries.filter (n < ·.line)).map Checkpoint.line, n < line := by
    intro line hline
    obtain ⟨c, hc, rfl⟩ := List.mem_map.1 hline
    simpa using (List.mem_filter.1 hc).2
  have hlines : (Checkpoint.behind entries n).map Checkpoint.line =
      ((entries.filter (n < ·.line)).map Checkpoint.line).map (· - n) := by
    simp [Checkpoint.behind]
  refine ofEntries_isOk_iff.2 ⟨?_, ?_⟩
  · intro c hc
    obtain ⟨line, hmem, heq⟩ := List.mem_map.1 (hlines ▸ List.mem_map_of_mem hc)
    have := hline line hmem
    omega
  · rw [hlines]
    refine hleft.map_on fun i hi j hj hij => ?_
    have := hline i hi
    have := hline j hj
    omega

/-- The lines that are left have the labels that they had. -/
theorem label?_behind (h : ofEntries entries = .ok table) {n : Nat}
    (hlater : ofEntries (Checkpoint.behind entries n) = .ok later) {line : Nat} (hline : line ≠ 0) :
    later.label? line = table.label? (n + line) := by
  obtain ⟨hindexed, hlist⟩ := of_ofEntries_eq_ok h
  obtain ⟨hindexed', hlist'⟩ := of_ofEntries_eq_ok hlater
  ext label
  rw [hindexed.label?_eq_some_iff, hindexed'.label?_eq_some_iff, hlist, hlist', Checkpoint.behind]
  simp only [List.mem_map, List.mem_filter, decide_eq_true_eq, Checkpoint.mk.injEq]
  constructor
  · rintro ⟨c, ⟨hc, hlt⟩, rfl, rfl⟩
    rwa [Nat.add_sub_cancel' hlt.le]
  · intro hc
    exact ⟨⟨n + line, label⟩, ⟨hc, by simp; omega⟩, by simp, rfl⟩

end Table

/-! ## Reports -/

/-- The report of a text and then of another one behind it. -/
def Report.followedBy (first second : Report) : Report where
  hits := first.hits ++ second.hits.map fun hit =>
    ⟨first.lineCount + hit.line, hit.label, first.finalDepths + hit.depths⟩
  finalDepths := first.finalDepths + second.finalDepths
  lineCount := first.lineCount + second.lineCount

/-- The hits of the first lines come first. -/
theorem hits_append (table : Table) (x y : List (List Char)) :
    (scanLines (x ++ y) table).hits = (scanLines x table).hits ++
      (List.range' (x.length + 1) y.length).filterMap (hitAt? table (x ++ y)) := by
  simp only [scanLines_eq_filterMap, List.length_append]
  rw [← List.range'_append_1, List.filterMap_append, filterMap_hitAt?_append, Nat.add_comm 1]

theorem depthsBehind_append_add (x y : List (List Char)) (n : Nat) :
    depthsBehind (x ++ y) (x.length + n) = depthsBehind x x.length + depthsBehind y n := by
  simp [depthsBehind, List.take_append, List.take_of_length_le]

theorem scanLines_append (h : Table.ofEntries entries = .ok table)
    (hlater : Table.ofEntries (Checkpoint.behind entries x.length) = .ok later)
    (y : List (List Char)) :
    scanLines (x ++ y) table = (scanLines x table).followedBy (scanLines y later) := by
  -- Behind the first part, a hit counts the lines and the depths of this part on top of its own.
  have hhit (n : Nat) (hn : n ≠ 0) : hitAt? table (x ++ y) (x.length + n) =
      (hitAt? later y n).map fun hit =>
        ⟨x.length + hit.line, hit.label, depthsBehind x x.length + hit.depths⟩ := by
    rw [hitAt?, hitAt?, Table.label?_behind h hlater hn, depthsBehind_append_add, Option.map_map]
    rfl
  have hsecond : (List.range' (x.length + 1) y.length).filterMap (hitAt? table (x ++ y)) =
      (scanLines y later).hits.map fun hit =>
        ⟨x.length + hit.line, hit.label, depthsBehind x x.length + hit.depths⟩ := by
    rw [← List.map_add_range', List.filterMap_map, scanLines_eq_filterMap, List.map_filterMap]
    apply List.filterMap_congr
    intro n hn
    rw [List.mem_range'_1] at hn
    exact hhit n (by omega)
  have hhits := hits_append table x y
  rw [hsecond] at hhits
  ext1
  · simpa [Report.followedBy, scanLines_eq_filterMap table x] using hhits
  · simp [Report.followedBy, scanLines_eq_filterMap, depthsBehind_append_add]
  · simp [Report.followedBy, scanLines_eq_filterMap]

theorem line_bounds_of_mem {table : Table} {ls : List (List Char)} {first count : Nat} {hit : Hit}
    (h : hit ∈ (List.range' first count).filterMap (hitAt? table ls)) :
    first ≤ hit.line ∧ hit.line < first + count := by
  obtain ⟨n, hn, hat⟩ := List.mem_filterMap.1 h
  obtain ⟨label, -, rfl⟩ := Option.map_eq_some_iff.1 hat
  exact List.mem_range'_1.1 hn

/-- The hits up to a line are those of the lines up to it, whatever follows them. -/
theorem filter_hits (table : Table) (ls : List (List Char)) (n : Nat) :
    (scanLines ls table).hits.filter (·.line ≤ n) = (scanLines (ls.take n) table).hits := by
  have hsplit := hits_append table (ls.take n) (ls.drop n)
  rw [List.take_append_drop] at hsplit
  rw [hsplit, List.filter_append, List.filter_eq_self.2, List.filter_eq_nil_iff.2, List.append_nil]
  · intro hit hhit
    have hline := line_bounds_of_mem hhit
    simp at hline ⊢
    omega
  · intro hit hhit
    rw [scanLines_eq_filterMap] at hhit
    have hline := line_bounds_of_mem hhit
    simp at hline ⊢
    omega

/-- Two texts that are joined at a line border are scanned one after the other, the second with the
checkpoints that are left. Anywhere else, a line of each becomes one line of both, and no other line
changes. The hits up to a line are decided by the lines up to it. -/
theorem scanText_append (h : Table.ofEntries entries = .ok table) (a b : List Char) :
    (IsLineBorder a b → lines (a ++ b) = lines a ++ lines b ∧
      ∃ later, Table.ofEntries (Checkpoint.behind entries (lines a).length) = .ok later ∧
        scanText (a ++ b) table = (scanText a table).followedBy (scanText b later)) ∧
    (¬ IsLineBorder a b → ∃ init last first rest, lines a = init ++ [last] ∧
      lines b = first :: rest ∧ lines (a ++ b) = init ++ (last ++ first) :: rest ∧
      (lines (a ++ b)).length + 1 = (lines a).length + (lines b).length) ∧
    ∀ n text other, (lines text).take n = (lines other).take n →
      (scanText text table).hits.filter (·.line ≤ n) =
        (scanText other table).hits.filter (·.line ≤ n) := by
  refine ⟨?_, ?_, ?_⟩
  · intro hborder
    have hlines := lines_append_of_isLineBorder hborder
    obtain ⟨later, hlater⟩ := Table.exists_ofEntries_behind h (lines a).length
    refine ⟨hlines, later, hlater, ?_⟩
    rw [scanText, hlines]
    exact scanLines_append h hlater (lines b)
  · intro hborder
    obtain ⟨first, rest, hb⟩ : ∃ first rest, lines b = first :: rest :=
      List.exists_cons_of_ne_nil fun hb => hborder (.inr (.inl (lines_eq_nil_iff.1 hb)))
    obtain ⟨init, last, ha, hjoined⟩ := lines_append_of_not_isLineBorder hborder hb
    exact ⟨init, last, first, rest, ha, hb, hjoined, by simp [ha, hb, hjoined]; omega⟩
  · intro n text other hsame
    rw [scanText, scanText, filter_hits, filter_hits, hsame]

/-- A carriage return ends a line in front of a brace, and becomes a part of a pair in front of a
line feed. What comes behind it does not change the hit on its line. -/
theorem scanText_append_carriage_return : ∃ table later,
    Table.ofEntries [⟨3, "end"⟩, ⟨1, "top"⟩] = .ok table ∧
      Table.ofEntries [⟨2, "end"⟩] = .ok later ∧
      scanText "(\r\x7b\n)".toList table =
        (scanText "(\r".toList table).followedBy (scanText "\x7b\n)".toList later) ∧
      (lines "(\r\n)".toList).length + 1 = 3 ∧
      (scanText "(\r\x7b\n)".toList table).hits.filter (·.line ≤ 1) =
        (scanText "(\r".toList table).hits.filter (·.line ≤ 1) := by
  obtain ⟨table, h⟩ : ∃ table, Table.ofEntries [⟨3, "end"⟩, ⟨1, "top"⟩] = .ok table :=
    Table.ofEntries_isOk_iff.2 (by decide)
  obtain ⟨hsafe, -, hstable⟩ := scanText_append h "(\r".toList "\x7b\n)".toList
  obtain ⟨-, hunsafe, -⟩ := scanText_append h "(\r".toList "\n)".toList
  obtain ⟨-, later, hlater, hscan⟩ := hsafe (.inr (.inr (.inr (by decide))))
  have hpair : ¬ IsLineBorder "(\r".toList "\n)".toList := by
    simp [IsLineBorder, LineSymbol.lf, LineSymbol.cr]
  obtain ⟨_, _, _, _, -, -, -, hcount⟩ := hunsafe hpair
  exact ⟨table, later, h, hlater, hscan, hcount, hstable 1 _ _ (by decide +kernel)⟩

end DepthGauge
