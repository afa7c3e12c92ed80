import DepthGauge.Checkpoint.Table
import Mathlib.Data.List.Nodup
import Mathlib.Data.List.Perm.Basic

/-!
# Looking up checkpoints

A table that is made from checkpoints holds them in their order, and its index agrees with them, so
that a look-up finds exactly the checkpoints that were given.

## Main definitions

* `Table.IsIndexed`: no checkpoint is for line zero, and the index gives the place of each line.
* `Checkpoint.reached`: the checkpoints up to a line, by their lines.

## Main results

* `Table.of_ofEntries_eq_ok`: what is known of a table that was made.
* `Table.ofEntries_isOk_iff`, `Table.of_ofEntries_eq_error`: when there is a table, and why not.
* `Table.unreached_eq_nil_iff`: when a text reaches every checkpoint.
* `Table.filterMap_label?_eq_reached`: asking for one line after the other.
-/

namespace DepthGauge

theorem bind_eq_ok_iff {ε α β : Type} {x : Except ε α} {f : α → Except ε β} {b : β} :
    (x >>= f) = .ok b ↔ ∃ a, x = .ok a ∧ f a = .ok b := by
  cases x with
  | error e => exact ⟨nofun, fun ⟨_, h, _⟩ => nomatch h⟩
  | ok a => exact ⟨fun h => ⟨a, rfl, h⟩, fun ⟨_, rfl, h⟩ => h⟩

theorem filter_eq_of_nodup {α : Type} [DecidableEq α] {l : List α} (h : l.Nodup) (a : α) :
    l.filter (· = a) = if a ∈ l then [a] else [] := by
  rw [List.filter_eq, h.count]
  split <;> rfl

namespace Table

structure IsIndexed (t : Table) : Prop where
  line_ne_zero : ∀ c ∈ t.toList, c.line ≠ 0
  index : ∀ line i, t.index[line]? = some i ↔ t.toList[i]?.map Checkpoint.line = some line

theorem isIndexed_empty : empty.IsIndexed := ⟨by simp, by simp [empty, toList]⟩

namespace IsIndexed

variable {t u : Table} {c : Checkpoint}

theorem contains_iff (h : t.IsIndexed) {line : Nat} :
    t.contains line = true ↔ ∃ c ∈ t.toList, c.line = line := by
  rw [contains, Std.HashMap.contains_eq_isSome_getElem?, Option.isSome_iff_exists]
  simp only [h.index, Option.map_eq_some_iff]
  constructor
  · rintro ⟨i, c, hc, hline⟩
    exact ⟨c, List.mem_of_getElem? hc, hline⟩
  · rintro ⟨c, hc, hline⟩
    obtain ⟨i, hi⟩ := List.mem_iff_getElem?.1 hc
    exact ⟨i, c, hi, hline⟩

theorem push (h : t.IsIndexed) (hp : t.push c = .ok u) : u.IsIndexed := by
  have hlist := toList_push hp
  obtain ⟨hne, hfree, rfl⟩ := push_eq_ok_iff.1 hp
  refine ⟨?_, ?_⟩
  · intro d hd
    rw [hlist, List.mem_append, List.mem_singleton] at hd
    rcases hd with hd | rfl
    · exact h.line_ne_zero d hd
    · exact hne
  · intro line i
    have hsize : t.entries.size = t.toList.length := t.size_eq
    rw [hlist, Std.HashMap.getElem?_insert, hsize]
    rcases Nat.lt_trichotomy i t.toList.length with hi | hi | hi
    · -- An old place keeps its line, which differs from the new one.
      rw [List.getElem?_append_left hi, ← h.index]
      have hold : t.index[c.line]? = none := by simpa [contains] using hfree
      split
      · next hline =>
        obtain rfl : c.line = line := by simpa using hline
        simpa [hold] using Nat.ne_of_gt hi
      · rfl
    · have hnone : t.index[line]? ≠ some i := by simp [h.index, hi]
      subst hi
      by_cases hline : c.line = line <;> simp [hline, hnone]
    · have hnone : t.index[line]? ≠ some i := by
        simp [h.index, List.getElem?_eq_none (Nat.le_of_lt hi)]
      rw [List.getElem?_eq_none (by simp; omega)]
      by_cases hline : c.line = line <;> simp [hline, hnone, Nat.ne_of_lt hi]

theorem nodup_lines (h : t.IsIndexed) : (t.toList.map Checkpoint.line).Nodup := by
  rw [List.nodup_iff_getElem?_ne_getElem?]
  intro i j hij hj heq
  rw [List.getElem?_map, List.getElem?_map] at heq
  rw [List.length_map] at hj
  have hline : t.toList[j]?.map Checkpoint.line = some t.toList[j].line := by simp [hj]
  have hfst := (h.index _ _).2 (heq.trans hline)
  have hsnd := (h.index _ _).2 hline
  rw [hfst] at hsnd
  exact Nat.ne_of_lt hij (Option.some.inj hsnd)

theorem label?_eq_some_iff (h : t.IsIndexed) {line : Nat} {label : String} :
    t.label? line = some label ↔ ⟨line, label⟩ ∈ t.toList := by
  rw [label?, Option.bind_eq_some_iff, List.mem_iff_getElem?]
  have hentries (i : Nat) : t.entries[i]? = t.toList[i]? := by simp [toList]
  simp only [h.index, hentries, Option.map_eq_some_iff]
  constructor
  · rintro ⟨i, ⟨c, hc, rfl⟩, d, hd, rfl⟩
    rw [hc] at hd
    cases hd
    exact ⟨i, hc⟩
  · rintro ⟨i, hi⟩
    exact ⟨i, ⟨_, hi, rfl⟩, _, hi, rfl⟩

/-- A line has a label if it has a checkpoint. -/
theorem isSome_label? (h : t.IsIndexed) (line : Nat) :
    (t.label? line).isSome = t.contains line := by
  rw [Bool.eq_iff_iff, h.contains_iff, Option.isSome_iff_exists]
  simp only [h.label?_eq_some_iff]
  constructor
  · rintro ⟨label, hmem⟩
    exact ⟨_, hmem, rfl⟩
  · rintro ⟨c, hc, rfl⟩
    exact ⟨c.label, hc⟩

end IsIndexed

/-! ## Making a table -/

variable {t : Table} {entries : List Checkpoint}

theorem of_foldlM_push {s : Table} (hs : s.IsIndexed) (h : entries.foldlM push s = .ok t) :
    t.IsIndexed ∧ t.toList = s.toList ++ entries := by
  induction entries generalizing s with
  | nil =>
    cases h
    exact ⟨hs, by simp⟩
  | cons c entries ih =>
    rw [List.foldlM_cons] at h
    obtain ⟨u, hp, h⟩ := bind_eq_ok_iff.1 h
    obtain ⟨ht, hlist⟩ := ih (hs.push hp) h
    exact ⟨ht, by rw [hlist, toList_push hp, List.append_assoc]; rfl⟩

/-- A table that was made holds the checkpoints in their order, and finds them by their lines. -/
theorem of_ofEntries_eq_ok (h : ofEntries entries = .ok t) : t.IsIndexed ∧ t.toList = entries := by
  simpa using of_foldlM_push isIndexed_empty h

theorem IsIndexed.of_push_eq_error {s : Table} (hs : s.IsIndexed) {c : Checkpoint} {e : TableError}
    (h : s.push c = .error e) : c.line = 0 ∧ e = .zeroLine ∨
      c.line ≠ 0 ∧ c.line ∈ s.toList.map Checkpoint.line ∧ e = .duplicate c.line := by
  rw [Table.push] at h
  split at h
  · next hzero =>
    cases h
    exact .inl ⟨hzero, rfl⟩
  · next hne =>
    split at h
    · next hused =>
      cases h
      exact .inr ⟨hne, List.mem_map.2 (hs.contains_iff.1 hused), rfl⟩
    · cases h

/-- The first checkpoint that cannot be added decides the error. -/
theorem of_foldlM_push_eq_error {s : Table} (hs : s.IsIndexed) {e : TableError}
    (h : entries.foldlM push s = .error e) : ∃ before c after, entries = before ++ c :: after ∧
      (∃ u, before.foldlM push s = .ok u) ∧ (c.line = 0 ∧ e = .zeroLine ∨
        c.line ≠ 0 ∧ c.line ∈ (s.toList ++ before).map Checkpoint.line ∧
          e = .duplicate c.line) := by
  induction entries generalizing s with
  | nil => cases h
  | cons c entries ih =>
    rw [List.foldlM_cons] at h
    cases hp : s.push c with
    | error e' =>
      rw [hp] at h
      cases h
      exact ⟨[], c, entries, rfl, ⟨s, rfl⟩, by simpa using hs.of_push_eq_error hp⟩
    | ok u =>
      rw [hp] at h
      obtain ⟨before, d, after, rfl, hbefore, hd⟩ := ih (hs.push hp) h
      refine ⟨c :: before, d, after, rfl, ?_, ?_⟩
      · rw [List.foldlM_cons, hp]
        exact hbefore
      · rwa [toList_push hp, List.append_assoc] at hd

theorem of_ofEntries_eq_error {e : TableError} (h : ofEntries entries = .error e) :
    ∃ before c after, entries = before ++ c :: after ∧ (∃ u, ofEntries before = .ok u) ∧
      (c.line = 0 ∧ e = .zeroLine ∨
        c.line ≠ 0 ∧ c.line ∈ before.map Checkpoint.line ∧ e = .duplicate c.line) :=
  of_foldlM_push_eq_error isIndexed_empty h

theorem ofEntries_isOk_iff : (∃ t, ofEntries entries = .ok t) ↔
    (∀ c ∈ entries, c.line ≠ 0) ∧ (entries.map Checkpoint.line).Nodup := by
  constructor
  · rintro ⟨t, h⟩
    obtain ⟨ht, rfl⟩ := of_ofEntries_eq_ok h
    exact ⟨ht.line_ne_zero, ht.nodup_lines⟩
  · rintro ⟨hne, hnodup⟩
    cases h : ofEntries entries with
    | ok t => exact ⟨t, rfl⟩
    | error e =>
      obtain ⟨before, c, after, rfl, -, hzero | ⟨-, hused, -⟩⟩ := of_ofEntries_eq_error h
      · exact absurd hzero.1 (hne c (by simp))
      · rw [List.map_append, List.nodup_append] at hnodup
        exact absurd rfl (hnodup.2.2 c.line hused c.line (by simp))

/-! ## The last line -/

theorem maxLine?_eq_none_iff : t.maxLine? = none ↔ t.toList = [] := by
  simp [maxLine?]

theorem maxLine?_eq_some_iff {n : Nat} :
    t.maxLine? = some n ↔ (∃ c ∈ t.toList, c.line = n) ∧ ∀ c ∈ t.toList, c.line ≤ n := by
  simp [maxLine?, List.max?_eq_some_iff]

/-- Nothing is left behind a line if the last checkpoint is not behind it. -/
theorem unreached_eq_nil_iff {count : Nat} :
    t.unreached count = [] ↔ t.toList = [] ∨ ∃ n, t.maxLine? = some n ∧ n ≤ count := by
  have hall : t.unreached count = [] ↔ ∀ c ∈ t.toList, c.line ≤ count := by
    simp [unreached, List.filter_eq_nil_iff]
  rw [hall]
  cases hlast : t.maxLine? with
  | none => simp [maxLine?_eq_none_iff.1 hlast]
  | some n =>
    obtain ⟨⟨c, hc, rfl⟩, hle⟩ := maxLine?_eq_some_iff.1 hlast
    simp only [List.ne_nil_of_mem hc, Option.some.injEq, exists_eq_left', false_or]
    exact ⟨fun hcount => hcount c hc, fun hcount d hd => Nat.le_trans (hle d hd) hcount⟩

end Table

/-! ## The checkpoints that are reached -/

/-- The checkpoints up to a line, in the order of their lines. -/
def Checkpoint.reached (entries : List Checkpoint) (count : Nat) : List Checkpoint :=
  (entries.filter (·.line ≤ count)).mergeSort (fun a b => a.line ≤ b.line)

namespace Checkpoint

theorem mem_reached {entries : List Checkpoint} {count : Nat} {c : Checkpoint} :
    c ∈ reached entries count ↔ c ∈ entries ∧ c.line ≤ count := by
  simp [reached]

theorem reached_perm (entries : List Checkpoint) (count : Nat) :
    (reached entries count).Perm (entries.filter (·.line ≤ count)) :=
  List.mergeSort_perm _ _

/-- No two checkpoints of one line: then the order is strict. -/
theorem pairwise_reached {entries : List Checkpoint} (h : (entries.map line).Nodup) (count : Nat) :
    (reached entries count).Pairwise (·.line < ·.line) := by
  have hle : (reached entries count).Pairwise fun a b => decide (a.line ≤ b.line) :=
    List.pairwise_mergeSort (fun a b c hab hbc => by simp at *; omega)
      (fun a b => by simp; omega) _
  have hne : (reached entries count).Pairwise (·.line ≠ ·.line) := by
    rw [(reached_perm entries count).pairwise_iff fun hab => hab.symm]
    exact (List.pairwise_map.1 h).filter _
  exact (hle.and hne).imp fun hab => Nat.lt_of_le_of_ne (of_decide_eq_true hab.1) hab.2

end Checkpoint

/-- Asking a table for the lines from one on, one after the other, gives the checkpoints up to the
last of these lines. -/
theorem Table.filterMap_label?_eq_reached {t : Table} (h : t.IsIndexed) (count : Nat) :
    (List.range' 1 count).filterMap (fun line => (t.label? line).map (Checkpoint.mk line)) =
      Checkpoint.reached t.toList count := by
  have hasked : ((List.range' 1 count).filterMap fun line =>
      (t.label? line).map (Checkpoint.mk line)).Pairwise (·.line < ·.line) := by
    refine (List.pairwise_lt_range' 1).filterMap _ ?_
    intro i j hij a ha b hb
    simp only [Option.map_eq_some_iff] at ha hb
    obtain ⟨-, -, rfl⟩ := ha
    obtain ⟨-, -, rfl⟩ := hb
    exact hij
  have hreached := Checkpoint.pairwise_reached h.nodup_lines count
  have hne {a b : Checkpoint} (hab : a.line < b.line) : a ≠ b := fun heq => by
    rw [heq] at hab
    exact Nat.lt_irrefl _ hab
  refine List.Perm.eq_of_pairwise ?_ hasked hreached ?_
  · intro a b _ _ hab hba
    omega
  · rw [List.perm_ext_iff_of_nodup (hasked.imp hne) (hreached.imp hne)]
    intro c
    simp only [List.mem_filterMap, List.mem_range'_1, Option.map_eq_some_iff,
      h.label?_eq_some_iff, Checkpoint.mem_reached]
    constructor
    · rintro ⟨line, hline, label, hmem, rfl⟩
      exact ⟨hmem, by simp; omega⟩
    · rintro ⟨hmem, hline⟩
      have hpos : c.line ≠ 0 := h.line_ne_zero c hmem
      exact ⟨c.line, by omega, c.label, hmem, rfl⟩

end DepthGauge
