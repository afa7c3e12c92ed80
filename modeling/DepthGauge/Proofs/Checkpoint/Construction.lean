import DepthGauge.Proofs.Checkpoint.Lookup

/-!
# Making tables

A list of checkpoints makes a table unless one of them is for line zero or for the line of an
earlier one, and the first such place decides the error. A table that was made tells what the list
says, by its checkpoints and by its index, and the index adds nothing of its own.

## Main definitions

* `Table.FaultAt entries i e`: what is wrong at a place of a list.
* `Table.IsFirstFault entries e`: what is wrong at the first place where something is.
* `Table.Represents t entries`: what a table tells of a list.

## Main results

* `Table.ofEntries_eq_error_iff`: the first fault is the error.
* `Table.IsIndexed.beq_iff`: tables are equal if their checkpoints are, in order.
* `Table.ofEntries_represents`: when there is a table, what it tells, and what else is the reason.
-/

namespace DepthGauge.Table

variable {entries : List Checkpoint} {t u : Table} {e e' : TableError} {i : Nat}

/-! ## Faults -/

/-- The checkpoint at place `i` is for line zero or for the line of an earlier one. -/
inductive FaultAt (entries : List Checkpoint) (i : Nat) : TableError → Prop where
  | zeroLine {c : Checkpoint} (hc : entries[i]? = some c) (hzero : c.line = 0) :
    FaultAt entries i .zeroLine
  | duplicate {c : Checkpoint} (hc : entries[i]? = some c)
    (hused : c.line ∈ (entries.take i).map Checkpoint.line) : FaultAt entries i (.duplicate c.line)

/-- The fault at the smallest place that has one. -/
def IsFirstFault (entries : List Checkpoint) (e : TableError) : Prop :=
  ∃ i, FaultAt entries i e ∧ ∀ j < i, ∀ e', ¬ FaultAt entries j e'

theorem not_faultAt_of_isOk (h : ∃ t, ofEntries entries = .ok t) (i : Nat) (e : TableError) :
    ¬ FaultAt entries i e := by
  obtain ⟨hne, hnodup⟩ := ofEntries_isOk_iff.1 h
  intro hfault
  cases hfault with
  | zeroLine hc hzero => exact hne _ (List.mem_of_getElem? hc) hzero
  | @duplicate c hc hused =>
    rw [← List.take_append_drop i entries, List.map_append, List.nodup_append] at hnodup
    have hlater : c ∈ entries.drop i := List.mem_of_getElem? (i := 0) (by simpa using hc)
    exact hnodup.2.2 _ hused _ (List.mem_map_of_mem hlater) rfl

/-- Whether a place is at fault does not depend on what stands behind it. -/
theorem FaultAt.of_append {before after : List Checkpoint} (hi : i < before.length)
    (h : FaultAt (before ++ after) i e) : FaultAt before i e := by
  have hplace : (before ++ after)[i]? = before[i]? := List.getElem?_append_left hi
  cases h with
  | zeroLine hc hzero => exact .zeroLine (hplace ▸ hc) hzero
  | duplicate hc hused =>
    rw [List.take_append_of_le_length (Nat.le_of_lt hi)] at hused
    exact .duplicate (hplace ▸ hc) hused

theorem isFirstFault_of_eq_error (h : ofEntries entries = .error e) : IsFirstFault entries e := by
  obtain ⟨before, c, after, rfl, hbefore, hc⟩ := of_ofEntries_eq_error h
  have hplace : (before ++ c :: after)[before.length]? = some c := by simp
  refine ⟨before.length, ?_, fun j hj e' hfault => ?_⟩
  · rcases hc with ⟨hzero, rfl⟩ | ⟨-, hused, rfl⟩
    · exact .zeroLine hplace hzero
    · exact .duplicate hplace (by simpa using hused)
  · exact not_faultAt_of_isOk hbefore j e' (hfault.of_append hj)

/-- A line zero that is repeated is at fault where it stands first, so that no place is the first
one for two reasons. -/
theorem FaultAt.unique_of_first (h : FaultAt entries i e) (h' : FaultAt entries i e')
    (hfirst : ∀ j < i, ∀ e, ¬ FaultAt entries j e) : e = e' := by
  have hnonzero {c : Checkpoint} (hused : c.line ∈ (entries.take i).map Checkpoint.line) :
      c.line ≠ 0 := by
    intro hzero
    obtain ⟨d, hd, hline⟩ := List.mem_map.1 hused
    obtain ⟨j, hj, rfl⟩ := List.mem_take_iff_getElem.1 hd
    obtain ⟨hlt, hlength⟩ := Nat.lt_min.1 hj
    exact hfirst j hlt _ (.zeroLine (List.getElem?_eq_getElem hlength) (hline.trans hzero))
  cases h with
  | zeroLine hc hzero =>
    cases h' with
    | zeroLine => rfl
    | duplicate hd hused =>
      cases hc.symm.trans hd
      exact absurd hzero (hnonzero hused)
  | duplicate hc hused =>
    cases h' with
    | zeroLine hd hzero =>
      cases hc.symm.trans hd
      exact absurd hzero (hnonzero hused)
    | duplicate hd _ =>
      cases hc.symm.trans hd
      rfl

theorem IsFirstFault.unique (h : IsFirstFault entries e) (h' : IsFirstFault entries e') :
    e = e' := by
  obtain ⟨i, hi, hfirst⟩ := h
  obtain ⟨j, hj, hfirst'⟩ := h'
  rcases Nat.lt_trichotomy i j with hlt | rfl | hlt
  · exact absurd hi (hfirst' i hlt e)
  · exact hi.unique_of_first hj hfirst
  · exact absurd hj (hfirst j hlt e')

theorem ofEntries_eq_error_iff : ofEntries entries = .error e ↔ IsFirstFault entries e := by
  refine ⟨isFirstFault_of_eq_error, fun hfirst => ?_⟩
  cases h : ofEntries entries with
  | ok t =>
    obtain ⟨i, hfault, -⟩ := hfirst
    exact absurd hfault (not_faultAt_of_isOk ⟨t, h⟩ i e)
  | error e' => rw [hfirst.unique (isFirstFault_of_eq_error h)]

/-! ## What a table tells -/

/-- A table tells of each line what the list says, and the places in its index are in range. -/
structure Represents (t : Table) (entries : List Checkpoint) : Prop where
  toList : t.toList = entries
  index : ∀ line i : Nat, t.index[line]? = some i ↔
    ∃ c : Checkpoint, entries[i]? = some c ∧ c.line = line
  inRange : ∀ line i : Nat, t.index[line]? = some i → i < t.entries.size
  label : ∀ line label, t.label? line = some label ↔ ⟨line, label⟩ ∈ entries
  contains : ∀ line, t.contains line = (t.label? line).isSome
  size : t.size = entries.length
  isEmpty : t.isEmpty = true ↔ entries = []
  maxLine : ∀ n, t.maxLine? = some n ↔
    (∃ c ∈ entries, c.line = n) ∧ ∀ c ∈ entries, c.line ≤ n
  maxLine_eq_none : t.maxLine? = none ↔ entries = []

namespace IsIndexed

theorem lt_size (h : t.IsIndexed) {line i : Nat} (hi : t.index[line]? = some i) :
    i < t.entries.size := by
  obtain ⟨c, hc, -⟩ := Option.map_eq_some_iff.1 ((h.index line i).1 hi)
  obtain ⟨hlt, -⟩ := List.getElem?_eq_some_iff.1 hc
  simpa [Table.toList] using hlt

theorem represents (h : t.IsIndexed) : t.Represents t.toList where
  toList := rfl
  index line i := by rw [h.index, Option.map_eq_some_iff]
  inRange _ _ := h.lt_size
  label _ _ := h.label?_eq_some_iff
  contains line := (h.isSome_label? line).symm
  size := t.size_eq
  isEmpty := by simp [Table.isEmpty, Table.toList]
  maxLine _ := maxLine?_eq_some_iff
  maxLine_eq_none := maxLine?_eq_none_iff

/-- The checkpoints decide what the index holds, though not how it is laid out. -/
theorem equiv_index (ht : t.IsIndexed) (hu : u.IsIndexed) (h : t.toList = u.toList) :
    t.index.Equiv u.index := by
  refine Std.HashMap.Equiv.of_forall_getElem?_eq fun (line : Nat) => Option.ext fun i => ?_
  rw [ht.index, hu.index, h]

theorem beq_iff (ht : t.IsIndexed) (hu : u.IsIndexed) :
    (t == u) = true ↔ t.toList = u.toList := by
  have hbeq : (t == u) = (t.entries == u.entries && t.index == u.index) := rfl
  rw [hbeq, Bool.and_eq_true, beq_iff_eq, Std.HashMap.beq_iff_equiv, Table.toList, Table.toList,
    Array.toList_inj]
  exact ⟨And.left, fun h => ⟨h, equiv_index ht hu (congrArg Array.toList h)⟩⟩

end IsIndexed

/-- A list makes a table if its lines count from one and no line is there twice. If not, the first
place with a line zero or an earlier line is the reason. The table tells what the list says, and
equals the table of another list if the lists are equal, their order included. -/
theorem ofEntries_represents (entries : List Checkpoint) :
    ((∃ t, ofEntries entries = .ok t) ↔
      (∀ c ∈ entries, 1 ≤ c.line) ∧ (entries.map Checkpoint.line).Nodup) ∧
    (∀ e, ofEntries entries = .error e ↔ IsFirstFault entries e) ∧
    ∀ t, ofEntries entries = .ok t → t.Represents entries ∧
      ∀ others u, ofEntries others = .ok u → ((t == u) = true ↔ entries = others) := by
  refine ⟨?_, fun e => ofEntries_eq_error_iff, fun t h => ?_⟩
  · simp only [Nat.one_le_iff_ne_zero]
    exact ofEntries_isOk_iff
  · obtain ⟨hindexed, rfl⟩ := of_ofEntries_eq_ok h
    refine ⟨hindexed.represents, fun others u hu => ?_⟩
    obtain ⟨hindexed', rfl⟩ := of_ofEntries_eq_ok hu
    exact hindexed.beq_iff hindexed'

/-- Two orders of the same checkpoints make two tables with the same labels, and of three places at
fault the first one counts. -/
theorem ofEntries_represents_unordered :
    (∃ t u, ofEntries [⟨7, "b"⟩, ⟨2, "a"⟩] = .ok t ∧ ofEntries [⟨2, "a"⟩, ⟨7, "b"⟩] = .ok u ∧
      t.label? 2 = some "a" ∧ u.label? 2 = some "a" ∧ t.index[2]? = some 1 ∧
      t.maxLine? = some 7 ∧ (t == u) = false) ∧
    ofEntries [⟨7, "a"⟩, ⟨2, "b"⟩, ⟨7, "c"⟩, ⟨0, "d"⟩, ⟨2, "e"⟩] = .error (.duplicate 7) := by
  obtain ⟨hok, -, htells⟩ := ofEntries_represents [⟨7, "b"⟩, ⟨2, "a"⟩]
  obtain ⟨hok', -, htells'⟩ := ofEntries_represents [⟨2, "a"⟩, ⟨7, "b"⟩]
  obtain ⟨t, ht⟩ := hok.2 (by decide)
  obtain ⟨u, hu⟩ := hok'.2 (by decide)
  obtain ⟨hrep, hbeq⟩ := htells t ht
  refine ⟨⟨t, u, ht, hu, (hrep.label 2 "a").2 (by decide),
    ((htells' u hu).1.label 2 "a").2 (by decide), (hrep.index 2 1).2 ⟨⟨2, "a"⟩, rfl, rfl⟩,
    (hrep.maxLine 7).2 (by decide), ?_⟩, ?_⟩
  · rw [Bool.eq_false_iff, ne_eq, hbeq _ u hu]
    decide
  · refine ((ofEntries_represents _).2.1 _).2
      ⟨2, .duplicate (c := ⟨7, "c"⟩) rfl (by decide), fun j hj e' hfault => ?_⟩
    have hgood : ∃ t, ofEntries [⟨7, "a"⟩, ⟨2, "b"⟩] = .ok t := ofEntries_isOk_iff.2 (by decide)
    have hbefore : FaultAt ([⟨7, "a"⟩, ⟨2, "b"⟩] ++ [⟨7, "c"⟩, ⟨0, "d"⟩, ⟨2, "e"⟩]) j e' := hfault
    exact not_faultAt_of_isOk hgood j e' (hbefore.of_append hj)

end DepthGauge.Table
