import DepthGauge.Proofs.Balance.Counting

/-!
# Counting across a border

Where a text is cut in two, the cut goes through one marker at most. The depths of the parts add up
to those of the text but for this marker.

## Main results

* `Marker.straddles_iff`: the markers that a cut goes through, by their places.
* `Marker.Straddles.unique`: there is one at most.
* `Depths.tally_append_eq_add_iff`: depths add up exactly if there is none.
* `tally_append_counts_border`: the depths of a text that was cut in two.
-/

namespace DepthGauge

variable {m n : Marker} {a b : List Char}

namespace Marker

theorem straddles_iff : m.Straddles a b ↔
    ∃ i, m.OccursAt (a ++ b) i ∧ i < a.length ∧ a.length < i + m.text.length := by
  constructor
  · rintro ⟨i, hi, hp, hcut⟩
    refine ⟨i, ?_, hi, Nat.lt_of_not_le fun hle => hcut ?_⟩
    · rwa [OccursAt, List.drop_append_of_le_length (Nat.le_of_lt hi)]
    · refine List.prefix_of_prefix_length_le hp (List.prefix_append _ _) ?_
      rw [List.length_drop]
      omega
  · rintro ⟨i, hat, hi, hend⟩
    rw [OccursAt, List.drop_append_of_le_length (Nat.le_of_lt hi)] at hat
    refine ⟨i, hi, hat, fun hwhole => ?_⟩
    have hle : i + m.text.length ≤ a.length := OccursAt.add_length_le hwhole
    omega

/-- Two markers that one cut goes through share the symbols next to it. -/
theorem Straddles.unique (hm : m.Straddles a b) (hn : n.Straddles a b) : m = n := by
  obtain ⟨i, hi, hstart, hend⟩ := straddles_iff.1 hm
  obtain ⟨j, hj, hstart', hend'⟩ := straddles_iff.1 hn
  by_contra hne
  have happart := hi.apart hj fun heq => hne (congrArg Prod.fst heq)
  omega

theorem not_straddles_both : ¬ (opening.Straddles a b ∧ closing.Straddles a b) := by
  rintro ⟨hopening, hclosing⟩
  cases hopening.unique hclosing

end Marker

namespace Depths

/-- The markers of the two kinds never cancel each other out. -/
theorem straddling_eq_zero_iff : straddling a b = 0 ↔ ∀ m : Marker, ¬ m.Straddles a b := by
  constructor
  · intro hzero m hm
    have hdivs : (straddling a b).divs = 0 := by rw [hzero, divs_zero]
    cases m with
    | opening =>
      have hother : ¬ Marker.closing.Straddles a b := fun h => Marker.not_straddles_both ⟨hm, h⟩
      simp [straddling, hm, hother] at hdivs
    | closing =>
      have hother : ¬ Marker.opening.Straddles a b := fun h => Marker.not_straddles_both ⟨h, hm⟩
      simp [straddling, hm, hother] at hdivs
  · intro hnone
    simp only [straddling, hnone, if_false]
    rfl

theorem tally_append_eq_add_iff :
    tally (a ++ b) = tally a + tally b ↔ ∀ m : Marker, ¬ m.Straddles a b := by
  rw [tally_append_eq, add_eq_left, straddling_eq_zero_iff]

end Depths

/-- The depths of a text that was cut in two are the sum of those of its parts and of the marker
that the cut goes through. There is one such marker at most, so that the sum is right without it
exactly if there is none. There is none at a line end, and none in front of the first symbol of a
marker. -/
theorem tally_append_counts_border (a b : List Char) :
    Depths.tally (a ++ b) = Depths.tally a + Depths.tally b +
        ⟨0, 0, (if Marker.opening.Straddles a b then 1 else 0) -
          (if Marker.closing.Straddles a b then 1 else 0)⟩ ∧
      (∀ m : Marker, m.Straddles a b ↔
        ∃ i, m.OccursAt (a ++ b) i ∧ i < a.length ∧ a.length < i + m.text.length) ∧
      ¬ (Marker.opening.Straddles a b ∧ Marker.closing.Straddles a b) ∧
      (Depths.tally (a ++ b) = Depths.tally a + Depths.tally b ↔
        ∀ m : Marker, ¬ m.Straddles a b) ∧
      ((∃ ending ∈ terminators, ending <:+ a ∨ ending <+: b) ∨ b.head? = some '<' →
        Depths.tally (a ++ b) = Depths.tally a + Depths.tally b) := by
  refine ⟨Depths.tally_append_eq a b, fun m => Marker.straddles_iff, Marker.not_straddles_both,
    Depths.tally_append_eq_add_iff, fun h => Depths.tally_append fun m => ?_⟩
  rcases h with ⟨ending, hend, ha | hb⟩ | hstart
  · exact m.not_straddles_of_suffix hend ha b
  · exact m.not_straddles_of_isPrefix hend hb a
  · exact Marker.not_straddles_of_head? hstart m.not_mem_tail_text a

/-- A cut through a marker of each kind, and one in front of a marker where another one could have
begun. -/
theorem tally_append_counts_border_inside :
    Depths.tally ("(<d".toList ++ "iv>".toList) =
        Depths.tally "(<d".toList + Depths.tally "iv>".toList + ⟨0, 0, 1⟩ ∧
      Depths.tally ("<div></div".toList ++ ">)".toList) =
        Depths.tally "<div></div".toList + Depths.tally ">)".toList + ⟨0, 0, -1⟩ ∧
      Depths.tally ("</di".toList ++ "<div\x7b".toList) =
        Depths.tally "</di".toList + Depths.tally "<div\x7b".toList := by
  obtain ⟨hopening, -⟩ := tally_append_counts_border "(<d".toList "iv>".toList
  obtain ⟨hclosing, -⟩ := tally_append_counts_border "<div></div".toList ">)".toList
  obtain ⟨-, -, -, -, hfront⟩ := tally_append_counts_border "</di".toList "<div\x7b".toList
  refine ⟨hopening.trans ?_, hclosing.trans ?_, hfront (.inr rfl)⟩
  · rw [if_pos (by decide), if_neg (by decide), Int.sub_zero]
  · rw [if_neg (by decide), if_pos (by decide), Int.zero_sub]

end DepthGauge
