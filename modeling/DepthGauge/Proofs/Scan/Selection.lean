import DepthGauge.Output.ReportText
import DepthGauge.Proofs.Scan.Snapshot

/-!
# What a table selects

Two scans of the same lines differ only where their tables do. A table decides which snapshots are
kept and under which label, and never what is counted. The order of its checkpoints, which decides
at which places the index finds them, shows in nothing but the order of the unreached ones.

## Main results

* `filter_hits_congr`: on lines that have the same labels, two reports have the same hits.
* `Table.label?_of_perm`, `Table.label?_of_subset`: tables with the same labels.
* `scanText_selects`: the reports of two tables.
-/

namespace DepthGauge

variable {a b : List Checkpoint} {s t : Table}

/-! ## Hits of some lines -/

theorem filter_hits_eq (p : Nat → Bool) (table : Table) (ls : List (List Char)) :
    (scanLines ls table).hits.filter (p ·.line) =
      ((List.range' 1 ls.length).filter p).filterMap (hitAt? table ls) := by
  rw [scanLines_eq_filterMap, List.filter_filterMap, List.filterMap_filter]
  apply List.filterMap_congr
  intro n _
  rw [hitAt?]
  cases table.label? n <;> simp [Option.filter]

/-- The hits of some lines depend on the labels of these lines alone. -/
theorem filter_hits_congr {p : Nat → Bool} (h : ∀ n, p n → s.label? n = t.label? n)
    (ls : List (List Char)) :
    (scanLines ls s).hits.filter (p ·.line) = (scanLines ls t).hits.filter (p ·.line) := by
  rw [filter_hits_eq, filter_hits_eq]
  apply List.filterMap_congr
  intro n hn
  rw [hitAt?, hitAt?, h n (List.mem_filter.1 hn).2]

/-- A line has one hit or none. -/
theorem filter_line_hits_cases (table : Table) (ls : List (List Char)) (n : Nat) :
    (∃ hit, (scanLines ls table).hits.filter (·.line = n) = [hit]) ∨
      (scanLines ls table).hits.filter (·.line = n) = [] := by
  rw [filter_hits_eq (· = n), filter_eq_of_nodup List.nodup_range']
  split
  · cases h : hitAt? table ls n with
    | none => exact .inr (by simp [h])
    | some hit => exact .inl ⟨hit, by simp [h]⟩
  · exact .inr rfl

/-- Every hit is for a line that the table has. -/
theorem filter_contains_hits (h : s.IsIndexed) (ls : List (List Char)) :
    (scanLines ls s).hits.filter (s.contains ·.line) = (scanLines ls s).hits := by
  rw [List.filter_eq_self]
  intro hit hhit
  have hmem : hit.checkpoint ∈ Checkpoint.reached s.toList ls.length :=
    map_checkpoint_scanLines h ls ▸ List.mem_map_of_mem hhit
  exact h.contains_iff.2 ⟨hit.checkpoint, (Checkpoint.mem_reached.1 hmem).1, rfl⟩

/-! ## Tables with the same labels -/

namespace Table

theorem label?_of_subset (hs : s.IsIndexed) (ht : t.IsIndexed) (h : s.toList ⊆ t.toList) {n : Nat}
    (hn : s.contains n) : s.label? n = t.label? n := by
  obtain ⟨c, hc, rfl⟩ := hs.contains_iff.1 hn
  rw [hs.label?_eq_some_iff.2 hc, ht.label?_eq_some_iff.2 (h hc)]

theorem label?_of_perm (hs : s.IsIndexed) (ht : t.IsIndexed) (h : s.toList.Perm t.toList)
    (n : Nat) : s.label? n = t.label? n := by
  ext label
  rw [hs.label?_eq_some_iff, ht.label?_eq_some_iff, h.mem_iff]

/-- Whether a list makes a table does not depend on its order. -/
theorem exists_ofEntries_of_perm (h : a.Perm b) (ha : ∃ table, ofEntries a = .ok table) :
    ∃ table, ofEntries b = .ok table := by
  obtain ⟨hne, hnodup⟩ := ofEntries_isOk_iff.1 ha
  exact ofEntries_isOk_iff.2
    ⟨fun c hc => hne c (h.mem_iff.2 hc), (h.map Checkpoint.line).nodup_iff.1 hnodup⟩

end Table

/-! ## Reports -/

theorem scanLines_eq_of_label?_eq (h : ∀ n, s.label? n = t.label? n) (ls : List (List Char)) :
    scanLines ls s = scanLines ls t := by
  have hhit : hitAt? s ls = hitAt? t ls := by
    funext n
    rw [hitAt?, hitAt?, h n]
  rw [scanLines_eq_filterMap, scanLines_eq_filterMap, hhit]

/-- The table only selects what is shown. The reports of a text for two tables have the same final
depths and number of lines, and on a line that has the same label in both, the same hit or none. If
the tables differ in the order of their checkpoints, nothing differs but the order of the unreached
ones, and a part of the checkpoints gives their part of the hits. Whether checkpoints make a table
does not depend on their order. -/
theorem scanText_selects (hs : Table.ofEntries a = .ok s) (ht : Table.ofEntries b = .ok t)
    (text : List Char) :
    let x := scanText text s
    let y := scanText text t
    x.finalDepths = y.finalDepths ∧ x.lineCount = y.lineCount ∧
      (∀ n, s.label? n = t.label? n →
        (∃ hit, x.hits.filter (·.line = n) = [hit] ∧ y.hits.filter (·.line = n) = [hit]) ∨
          x.hits.filter (·.line = n) = [] ∧ y.hits.filter (·.line = n) = []) ∧
      (a.Perm b → x = y ∧ x.write = y.write ∧
        (s.unreached x.lineCount).Perm (t.unreached y.lineCount)) ∧
      (a ⊆ b → x.hits = y.hits.filter (s.contains ·.line)) ∧
      ∀ entries, (∃ table, Table.ofEntries entries = .ok table) ↔
        ∀ others, others.Perm entries → ∃ table, Table.ofEntries others = .ok table := by
  obtain ⟨hindexed, rfl⟩ := Table.of_ofEntries_eq_ok hs
  obtain ⟨hindexed', rfl⟩ := Table.of_ofEntries_eq_ok ht
  intro x y
  have hx : x = _ := scanLines_eq_filterMap s (lines text)
  have hy : y = _ := scanLines_eq_filterMap t (lines text)
  refine ⟨by rw [hx, hy], by rw [hx, hy], ?_, ?_, ?_, ?_⟩
  · intro n hn
    have hsame : x.hits.filter (·.line = n) = y.hits.filter (·.line = n) :=
      filter_hits_congr (p := (· = n)) (by simp [hn]) (lines text)
    rcases filter_line_hits_cases s (lines text) n with ⟨hit, hone⟩ | hnone
    · exact .inl ⟨hit, hone, hsame.symm.trans hone⟩
    · exact .inr ⟨hnone, hsame.symm.trans hnone⟩
  · intro hperm
    have hreport : x = y :=
      scanLines_eq_of_label?_eq (Table.label?_of_perm hindexed hindexed' hperm) (lines text)
    refine ⟨hreport, by rw [hreport], ?_⟩
    rw [hreport]
    exact hperm.filter _
  · intro hsub
    have hshown := filter_contains_hits hindexed (lines text)
    rw [filter_hits_congr fun n => Table.label?_of_subset hindexed hindexed' hsub] at hshown
    exact hshown.symm
  · intro entries
    exact ⟨fun h others hperm => Table.exists_ofEntries_of_perm hperm.symm h,
      fun h => h entries (.refl _)⟩

/-- The same checkpoints in another order, and with one more in between. -/
theorem scanText_selects_reordered : ∃ s t u,
    Table.ofEntries [⟨3, "c"⟩, ⟨1, "a"⟩] = .ok s ∧ Table.ofEntries [⟨1, "a"⟩, ⟨3, "c"⟩] = .ok t ∧
      Table.ofEntries [⟨2, "b"⟩, ⟨1, "a"⟩, ⟨3, "c"⟩] = .ok u ∧
      scanText "(\n\x7b\r".toList s = scanText "(\n\x7b\r".toList t ∧
      (scanText "(\n\x7b\r".toList s).hits =
        (scanText "(\n\x7b\r".toList u).hits.filter (s.contains ·.line) := by
  obtain ⟨s, hs⟩ : ∃ s, Table.ofEntries [⟨3, "c"⟩, ⟨1, "a"⟩] = .ok s :=
    Table.ofEntries_isOk_iff.2 (by decide)
  obtain ⟨u, hu⟩ : ∃ u, Table.ofEntries [⟨2, "b"⟩, ⟨1, "a"⟩, ⟨3, "c"⟩] = .ok u :=
    Table.ofEntries_isOk_iff.2 (by decide)
  obtain ⟨-, -, -, -, hpart, haccepted⟩ := scanText_selects hs hu "(\n\x7b\r".toList
  obtain ⟨t, ht⟩ := (haccepted _).1 ⟨s, hs⟩ [⟨1, "a"⟩, ⟨3, "c"⟩] (.swap ..)
  obtain ⟨-, -, -, hreordered, -⟩ := scanText_selects hs ht "(\n\x7b\r".toList
  exact ⟨s, t, u, hs, ht, hu, (hreordered (.swap ..)).1, hpart (by simp)⟩

end DepthGauge
