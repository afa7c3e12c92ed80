import DepthGauge.Proofs.Balance.Tally
import Mathlib.Data.Set.Card

/-!
# Counting every place

The counters of a text are plain counts: of its brackets, and of the places where a marker stands.
The search passes over what it has found, but there is nothing to miss, since two markers never have
a symbol in common.

## Main definitions

* `Marker.OccursAt m text i`: the marker stands at place `i`.
* `IsUncut text`: the text has in full every marker that starts in it.

## Main results

* `Marker.count_eq_ncard`: the search finds a marker as often as it occurs.
* `Marker.OccursAt.apart`: of two occurrences, one ends before the other starts.
* `IsUncut.tally_append`: behind an uncut text, counting starts anew.
* `Depths.brackets_eq`: brackets are counted one by one.
* `tally_counts_every_place`: all counters together.
-/

namespace DepthGauge

variable {m n : Marker} {a b text : List Char} {i j : Nat}

namespace Marker

def OccursAt (m : Marker) (text : List Char) (i : Nat) : Prop := m.text <+: text.drop i

instance (m : Marker) (text : List Char) (i : Nat) : Decidable (m.OccursAt text i) :=
  inferInstanceAs (Decidable (m.text <+: text.drop i))

/-- No marker starts another one. -/
theorem eq_of_isPrefix (h : m.text <+: n.text) : m = n := by
  revert h
  cases m <;> cases n <;> decide

/-! ## Occurrences -/

namespace OccursAt

theorem getElem?_add (h : m.OccursAt text i) {k : Nat} (hk : k < m.text.length) :
    text[i + k]? = some m.text[k] := by
  rw [← List.getElem?_drop]
  exact List.prefix_iff_getElem?.1 h k hk

theorem getElem? (h : m.OccursAt text i) : text[i]? = some '<' := by
  rw [OccursAt, text_eq_cons] at h
  obtain ⟨after, hafter⟩ := h
  rw [← List.head?_drop, ← hafter]
  rfl

theorem add_length_le (h : m.OccursAt text i) : i + m.text.length ≤ text.length := by
  have hle := List.IsPrefix.length_le h
  have hlt : i < text.length := (List.getElem?_eq_some_iff.1 h.getElem?).1
  rw [List.length_drop] at hle
  omega

theorem unique (hm : m.OccursAt text i) (hn : n.OccursAt text i) : m = n := by
  rcases List.prefix_or_prefix_of_prefix hm hn with h | h
  · exact eq_of_isPrefix h
  · exact (eq_of_isPrefix h).symm

/-- The first symbol of a marker stands nowhere else in one, so that none starts inside another. -/
theorem eq_of_lt (hm : m.OccursAt text i) (hn : n.OccursAt text j) (hle : i ≤ j)
    (hlt : j < i + m.text.length) : i = j := by
  obtain ⟨d, rfl⟩ := Nat.exists_eq_add_of_le hle
  have hd : d < m.text.length := Nat.lt_of_add_lt_add_left hlt
  cases d with
  | zero => rfl
  | succ d =>
    have hstart : m.text[d + 1] = '<' :=
      Option.some.inj ((hm.getElem?_add hd).symm.trans hn.getElem?)
    refine absurd ?_ m.not_mem_tail_text
    rw [← hstart, ← List.getElem_tail (by simpa using Nat.lt_sub_of_add_lt hd)]
    exact List.getElem_mem _

theorem apart (hm : m.OccursAt text i) (hn : n.OccursAt text j) (hne : (m, i) ≠ (n, j)) :
    i + m.text.length ≤ j ∨ j + n.text.length ≤ i := by
  by_cases hplace : i = j
  · subst hplace
    exact absurd (by rw [hm.unique hn]) hne
  rcases Nat.le_total i j with hle | hle
  · exact .inl (Nat.le_of_not_lt fun hlt => hplace (hm.eq_of_lt hn hle hlt))
  · exact .inr (Nat.le_of_not_lt fun hlt => hplace (hn.eq_of_lt hm hle hlt).symm)

/-- What follows a text leaves the markers in it where they are. -/
theorem append_right (h : m.OccursAt a i) (b : List Char) : m.OccursAt (a ++ b) i := by
  have hle := h.add_length_le
  rw [OccursAt, List.drop_append_of_le_length (by omega)]
  exact List.IsPrefix.trans h (List.prefix_append _ _)

end OccursAt

theorem mem_positions_iff : i ∈ m.positions text ↔ m.OccursAt text i := by
  rw [mem_positions]
  exact ⟨And.right, fun h => ⟨(List.getElem?_eq_some_iff.1 h.getElem?).1, h⟩⟩

theorem count_eq_ncard (m : Marker) (text : List Char) :
    m.count text = {i | m.OccursAt text i}.ncard := by
  have hset : {i | m.OccursAt text i} = ((m.positions text).toFinset : Set Nat) := by
    ext i
    simp [mem_positions_iff]
  have hnodup : (m.positions text).Nodup := List.nodup_range.filter _
  rw [hset, Set.ncard_coe_finset, List.toFinset_card_of_nodup hnodup, count_eq_length_positions]

end Marker

/-! ## Texts that cut no marker off -/

def IsUncut (text : List Char) : Prop :=
  ∀ i, text[i]? = some '<' → ∃ m : Marker, m.OccursAt text i

theorem isUncut_of_not_mem (h : '<' ∉ text) : IsUncut text :=
  fun _ hi => absurd (List.mem_of_getElem? hi) h

theorem isUncut_text (m : Marker) : IsUncut m.text := by
  intro i hi
  cases i with
  | zero => exact ⟨m, List.prefix_rfl⟩
  | succ i => exact absurd (List.mem_of_getElem? (by simpa using hi)) m.not_mem_tail_text

namespace IsUncut

theorem append (ha : IsUncut a) (hb : IsUncut b) : IsUncut (a ++ b) := by
  intro i hi
  by_cases hlt : i < a.length
  · rw [List.getElem?_append_left hlt] at hi
    obtain ⟨m, hm⟩ := ha i hi
    exact ⟨m, hm.append_right b⟩
  · obtain ⟨k, rfl⟩ := Nat.exists_eq_add_of_le (Nat.le_of_not_lt hlt)
    rw [List.getElem?_append_right (Nat.le_add_right _ _), Nat.add_sub_cancel_left] at hi
    obtain ⟨m, hm⟩ := hb k hi
    exact ⟨m, by rwa [Marker.OccursAt, List.drop_length_add_append]⟩

/-- The marker that starts at a place is already there in full. -/
theorem not_straddles (ha : IsUncut a) (m : Marker) (b : List Char) : ¬ m.Straddles a b := by
  rintro ⟨i, hi, hp, hn⟩
  have hoccurs : m.OccursAt (a ++ b) i := by
    rwa [Marker.OccursAt, List.drop_append_of_le_length (Nat.le_of_lt hi)]
  have hstart : a[i]? = some '<' := by
    rw [← List.getElem?_append_left hi, hoccurs.getElem?]
  obtain ⟨n, hwhole⟩ := ha i hstart
  obtain rfl : m = n := hoccurs.unique (hwhole.append_right b)
  exact hn hwhole

theorem tally_append (ha : IsUncut a) (b : List Char) :
    Depths.tally (a ++ b) = Depths.tally a + Depths.tally b :=
  Depths.tally_append fun m => ha.not_straddles m b

end IsUncut

/-! ## Brackets -/

namespace Depths

theorem ofBracket_eq (c : Char) : ofBracket c =
    ⟨(if c = '{' then 1 else 0) - (if c = '}' then 1 else 0),
      (if c = '(' then 1 else 0) - (if c = ')' then 1 else 0), 0⟩ := by
  unfold ofBracket
  split <;> simp_all
  rfl

theorem brackets_eq (text : List Char) : brackets text =
    ⟨text.count '{' - text.count '}', text.count '(' - text.count ')', 0⟩ := by
  induction text with
  | nil => rfl
  | cons c text ih =>
    rw [brackets_cons, ih, ofBracket_eq]
    ext
    · simp [List.count_cons]
      omega
    · simp [List.count_cons]
      omega
    · simp

/-- Text without brackets and markers counts nothing. -/
theorem tally_eq_zero (h : ∀ c ∈ text, c ∉ ['{', '}', '(', ')', '<']) : tally text = 0 := by
  have hcount {c : Char} (hc : c ∈ ['{', '}', '(', ')', '<']) : text.count c = 0 :=
    List.count_eq_zero.2 fun hmem => h c hmem hc
  have hmarker (m : Marker) : m.count text = 0 := by
    have hnone := m.length_positions_append_of_not_mem (List.count_eq_zero.1 (hcount (by simp))) []
    rwa [List.append_nil, ← Marker.count_eq_length_positions] at hnone
  rw [tally, brackets_eq, markers, hmarker, hmarker, hcount (by simp), hcount (by simp),
    hcount (by simp), hcount (by simp)]
  rfl

end Depths

/-- A search finds a marker once at each place where it stands. Two occurrences, of one marker or of
both, lie in the text, one behind the other. With the brackets, their places are all that the
counters of a text count. -/
theorem tally_counts_every_place (text : List Char) :
    (∀ m : Marker, m.count text = {i | m.OccursAt text i}.ncard) ∧
    (∀ (m : Marker) (i : Nat), m.OccursAt text i → i + m.text.length ≤ text.length) ∧
    (∀ (m n : Marker) (i j : Nat), m.OccursAt text i → n.OccursAt text j → (m, i) ≠ (n, j) →
      i + m.text.length ≤ j ∨ j + n.text.length ≤ i) ∧
    Depths.tally text = ⟨text.count '{' - text.count '}', text.count '(' - text.count ')',
      {i | Marker.opening.OccursAt text i}.ncard - {i | Marker.closing.OccursAt text i}.ncard⟩ := by
  refine ⟨fun m => m.count_eq_ncard text, fun m i => Marker.OccursAt.add_length_le,
    fun m n i j => Marker.OccursAt.apart, ?_⟩
  rw [Depths.tally, Depths.brackets_eq, Depths.markers, Marker.count_eq_ncard,
    Marker.count_eq_ncard]
  ext <;> simp

/-- Markers right behind a first symbol that starts none, and one right behind the other. -/
theorem tally_counts_every_place_adjacent :
    {i | Marker.opening.OccursAt "<<div</div><d<div".toList i}.ncard = 2 ∧
      {i | Marker.closing.OccursAt "<<div</div><d<div".toList i}.ncard = 1 ∧
      Marker.opening.OccursAt "<<div</div><d<div".toList 1 ∧
      Marker.closing.OccursAt "<<div</div><d<div".toList 5 ∧ (1 + 4 ≤ 5 ∨ 5 + 6 ≤ 1) := by
  obtain ⟨hcount, -, hapart, -⟩ := tally_counts_every_place "<<div</div><d<div".toList
  have hopening : Marker.opening.OccursAt "<<div</div><d<div".toList 1 := by decide
  have hclosing : Marker.closing.OccursAt "<<div</div><d<div".toList 5 := by decide
  refine ⟨?_, ?_, hopening, hclosing, hapart _ _ _ _ hopening hclosing (by simp)⟩
  · rw [← hcount]
    decide
  · rw [← hcount]
    decide

end DepthGauge
