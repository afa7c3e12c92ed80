import DepthGauge.Balance.Marker

/-!
# Occurrences of markers

The search for a marker passes over what it has found. No marker starts inside another one, so that
nothing is missed, and the count of the search is the number of all places. Over two texts it is the
sum of the two counts and of the marker across their border, if there is one.

## Main definitions

* `Marker.Straddles m a b`: the marker starts in `a` and ends in `b`.

## Main results

* `Marker.count_eq_length_positions`: the search counts every place.
* `Marker.count_append`: the count of two joined texts.
* `Marker.not_straddles_of_getLast?`, `Marker.not_straddles_of_head?`: symbols that keep a marker
  from straddling.
-/

namespace DepthGauge.Marker

@[simp]
theorem positions_nil (m : Marker) : m.positions [] = [] := rfl

theorem length_positions_cons (m : Marker) (c : Char) (rest : List Char) :
    (m.positions (c :: rest)).length =
      (if m.text <+: c :: rest then 1 else 0) + (m.positions rest).length := by
  simp only [positions, List.length_cons, List.range_succ_eq_map, List.filter_cons,
    List.drop_zero, List.isPrefixOf_iff_prefix, List.filter_map, Function.comp_def,
    Nat.succ_eq_add_one, List.drop_succ_cons]
  split <;> simp [Nat.add_comm]

theorem text_eq_cons (m : Marker) : m.text = '<' :: m.text.tail := by cases m <;> rfl

theorem not_mem_tail_text (m : Marker) : '<' ∉ m.text.tail := by cases m <;> decide

/-- No marker starts in a text without its first symbol. -/
theorem length_positions_append_of_not_mem (m : Marker) {a : List Char} (h : '<' ∉ a)
    (b : List Char) : (m.positions (a ++ b)).length = (m.positions b).length := by
  induction a with
  | nil => rfl
  | cons c a ih =>
    obtain ⟨hc, ha⟩ := not_or.1 (mt List.mem_cons.2 h)
    have hstart : ¬ m.text <+: c :: (a ++ b) := by
      rw [text_eq_cons, List.cons_prefix_cons]
      exact fun hp => hc hp.1
    rw [List.cons_append, length_positions_cons, if_neg hstart, Nat.zero_add, ih ha]

/-- Behind a find, the search goes on where the next marker can start at the earliest. -/
theorem countFrom_eq_length_positions (m : Marker) (skip found : Nat) (text : List Char) :
    m.countFrom skip found text = found + (m.positions (text.drop skip)).length := by
  induction text generalizing skip found with
  | nil => simp [countFrom]
  | cons c rest ih =>
    cases skip with
    | succ n => exact ih n found
    | zero =>
      rw [List.drop_zero, length_positions_cons]
      simp only [countFrom, List.isPrefixOf_iff_prefix]
      split
      · next hp =>
        obtain ⟨after, hafter⟩ := hp
        rw [text_eq_cons, List.cons_append] at hafter
        obtain ⟨-, hrest⟩ := List.cons.inj hafter.symm
        have hskip : rest.drop (m.text.length - 1) = after := by
          rw [hrest, ← List.length_tail, List.drop_left]
        rw [ih, hskip, hrest, length_positions_append_of_not_mem m m.not_mem_tail_text]
        omega
      · rw [ih, List.drop_zero]
        omega

theorem count_eq_length_positions (m : Marker) (text : List Char) :
    m.count text = (m.positions text).length := by
  simp [count, countFrom_eq_length_positions]

theorem count_cons (m : Marker) (c : Char) (rest : List Char) :
    m.count (c :: rest) = (if m.text <+: c :: rest then 1 else 0) + m.count rest := by
  simp only [count_eq_length_positions, length_positions_cons]

/-! ## Borders -/

section Borders

variable {m : Marker} {a b : List Char} {c : Char}

/-- The marker stands in `a ++ b`, starts in `a` and ends in `b`. -/
def Straddles (m : Marker) (a b : List Char) : Prop :=
  ∃ i < a.length, m.text <+: a.drop i ++ b ∧ ¬ m.text <+: a.drop i

instance (m : Marker) (a b : List Char) : Decidable (m.Straddles a b) :=
  inferInstanceAs (Decidable (∃ i < a.length, m.text <+: a.drop i ++ b ∧ ¬ m.text <+: a.drop i))

theorem not_straddles_nil (m : Marker) (b : List Char) : ¬ m.Straddles [] b :=
  fun ⟨_, hi, _⟩ => Nat.not_lt_zero _ hi

theorem straddles_cons_iff : m.Straddles (c :: a) b ↔
    (m.text <+: c :: (a ++ b) ∧ ¬ m.text <+: c :: a) ∨ m.Straddles a b := by
  constructor
  · rintro ⟨_ | i, hi, hs⟩
    · exact .inl hs
    · exact .inr ⟨i, Nat.lt_of_succ_lt_succ hi, hs⟩
  · rintro (hs | ⟨i, hi, hs⟩)
    · exact ⟨0, Nat.zero_lt_succ _, hs⟩
    · exact ⟨i + 1, Nat.succ_lt_succ hi, hs⟩

/-- All of a text behind the start of a marker that goes across its end is in the marker, so that no
other marker starts there. -/
theorem not_straddles_of_cut (h : m.text <+: c :: (a ++ b)) (hcut : ¬ m.text <+: c :: a)
    (n : Marker) : ¬ n.Straddles a b := by
  rw [text_eq_cons, List.cons_prefix_cons] at h hcut
  have hinside : a <+: m.text.tail :=
    (List.prefix_or_prefix_of_prefix h.2 (List.prefix_append a b)).resolve_left
      fun hwhole => hcut ⟨h.1, hwhole⟩
  rintro ⟨i, hi, hs, -⟩
  rw [text_eq_cons, List.drop_eq_getElem_cons hi, List.cons_append, List.cons_prefix_cons] at hs
  exact m.not_mem_tail_text (hinside.subset (hs.1 ▸ List.getElem_mem hi))

/-- The search finds what it finds in each text, and a marker across the border. -/
theorem count_append (m : Marker) (a b : List Char) :
    m.count (a ++ b) = m.count a + m.count b + if m.Straddles a b then 1 else 0 := by
  induction a with
  | nil => simp [not_straddles_nil]
  | cons c a ih =>
    rw [List.cons_append, count_cons, count_cons, ih]
    by_cases hcut : m.text <+: c :: (a ++ b) ∧ ¬ m.text <+: c :: a
    · have hlater : ¬ m.Straddles a b := not_straddles_of_cut hcut.1 hcut.2 m
      rw [if_pos hcut.1, if_neg hcut.2, if_neg hlater, if_pos (straddles_cons_iff.2 (.inl hcut))]
      omega
    · have hhead : m.text <+: c :: (a ++ b) ↔ m.text <+: c :: a :=
        ⟨fun hp => Classical.not_not.1 fun hn => hcut ⟨hp, hn⟩,
          fun hp => hp.trans (List.prefix_append (c :: a) b)⟩
      have hlater : m.Straddles (c :: a) b ↔ m.Straddles a b :=
        straddles_cons_iff.trans (or_iff_right hcut)
      simp only [hhead, hlater]
      omega

/-- A marker does not go on behind a symbol that it does not have. -/
theorem not_straddles_of_getLast? (ha : a.getLast? = some c) (hc : c ∉ m.text) (b : List Char) :
    ¬ m.Straddles a b := by
  rintro ⟨i, hi, hp, hn⟩
  rcases List.prefix_or_prefix_of_prefix hp (List.prefix_append (a.drop i) b) with h | h
  · exact hn h
  · have hlast : (a.drop i).getLast? = some c := by rw [List.getLast?_drop, if_neg (by omega), ha]
    exact hc (h.subset (List.mem_of_getLast? hlast))

/-- A marker that goes on behind a text goes on with the first symbol there, which does not start
it. -/
theorem not_straddles_of_head? (hb : b.head? = some c) (hc : c ∉ m.text.tail) (a : List Char) :
    ¬ m.Straddles a b := by
  rintro ⟨i, hi, hp, hn⟩
  rcases List.prefix_or_prefix_of_prefix hp (List.prefix_append (a.drop i) b) with h | h
  · exact hn h
  · obtain ⟨more, hmore⟩ := h
    rw [← hmore, List.prefix_append_right_inj] at hp
    cases more with
    | nil => exact hn (by simp [← hmore])
    | cons d more =>
      obtain ⟨after, rfl⟩ := hp
      obtain rfl : d = c := by simpa using hb
      rw [← hmore, List.drop_eq_getElem_cons hi, List.cons_append, List.tail_cons] at hc
      exact hc (List.mem_append_right _ List.mem_cons_self)

/-- No marker goes across a line end. -/
theorem not_mem_text_of_terminator (hc : c = '\n' ∨ c = '\r') (m : Marker) : c ∉ m.text := by
  rcases hc with rfl | rfl <;> cases m <;> decide

end Borders

end DepthGauge.Marker
