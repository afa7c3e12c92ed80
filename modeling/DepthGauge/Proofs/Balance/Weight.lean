import DepthGauge.Proofs.Balance.Counting
import DepthGauge.Text.Utf8

/-!
# Weights

A text pays for what it counts. Each bracket costs a symbol and each marker all of its own, and no
two of them share one, so that the counters of a text cannot be larger than the text.

## Main definitions

* `isBracket c`: the symbol is one that is counted by itself.
* `Depths.weight d`: one for each bracket that is left over, and four for each marker.

## Main results

* `markerInduction`: a text is taken apart marker by marker, and symbol by symbol in between.
* `charge_le_length`, `charge_le_length_encode`: the symbols and the bytes that are paid.
* `Depths.weight_tally_le`: the depths of a text weigh no more than its bytes.
-/

namespace DepthGauge

variable {text start : List Char}

/-! ## What a text pays -/

def isBracket (c : Char) : Bool := c ∈ ['{', '}', '(', ')']

/-- A text starts with a marker, or with a symbol that starts none. -/
@[elab_as_elim]
theorem markerInduction {motive : List Char → Prop} (nil : motive [])
    (marker : ∀ (m : Marker) (rest : List Char), motive rest → motive (m.text ++ rest))
    (cons : ∀ (c : Char) (rest : List Char), (∀ m : Marker, ¬ m.text <+: c :: rest) →
      motive rest → motive (c :: rest)) (text : List Char) : motive text := by
  cases text with
  | nil => exact nil
  | cons c rest =>
    by_cases h : ∃ m : Marker, m.text <+: c :: rest
    · obtain ⟨m, after, hafter⟩ := h
      have : after.length < rest.length + 1 := by
        have hlength := congrArg List.length hafter
        rw [Marker.text_eq_cons] at hlength
        simp only [List.cons_append, List.length_cons, List.length_append] at hlength
        omega
      rw [← hafter]
      exact marker m after (markerInduction nil marker cons after)
    · exact cons c rest (not_exists.1 h) (markerInduction nil marker cons rest)
termination_by text.length

/-- The brackets and the markers of a text are in different places. -/
theorem charge_le_length (text : List Char) :
    text.countP isBracket + 4 * Marker.opening.count text + 6 * Marker.closing.count text ≤
      text.length := by
  induction text using markerInduction with
  | nil => simp
  | marker m rest ih =>
    have hcount (n : Marker) : n.count (m.text ++ rest) = n.count m.text + n.count rest := by
      rw [Marker.count_append, if_neg ((isUncut_text m).not_straddles n rest), Nat.add_zero]
    have hown : m.text.countP isBracket + 4 * Marker.opening.count m.text +
        6 * Marker.closing.count m.text = m.text.length := by cases m <;> decide
    rw [hcount, hcount, List.countP_append, List.length_append]
    omega
  | cons c rest hnone ih =>
    rw [Marker.count_cons, Marker.count_cons, if_neg (hnone _), if_neg (hnone _), List.countP_cons,
      List.length_cons]
    split <;> omega

theorem length_le_length_encode (text : List Char) : text.length ≤ (Utf8.encode text).length := by
  induction text with
  | nil => rfl
  | cons c text ih =>
    rw [Utf8.encode_cons, List.length_append, String.length_utf8EncodeChar, List.length_cons]
    have hsize := c.utf8Size_pos
    omega

theorem charge_le_length_encode (text : List Char) :
    text.countP isBracket + 4 * Marker.opening.count text + 6 * Marker.closing.count text ≤
      (Utf8.encode text).length :=
  (charge_le_length text).trans (length_le_length_encode text)

/-! ## The weight of depths -/

namespace Depths

def weight (d : Depths) : Nat := d.braces.natAbs + d.parens.natAbs + 4 * d.divs.natAbs

@[simp]
theorem weight_zero : weight 0 = 0 := rfl

theorem natAbs_le_weight (d : Depths) : d.braces.natAbs ≤ d.weight ∧ d.parens.natAbs ≤ d.weight ∧
    d.divs.natAbs ≤ d.weight := by
  rw [weight]
  generalize d.braces.natAbs = braces, d.parens.natAbs = parens, d.divs.natAbs = divs
  omega

theorem weight_add_le (d e : Depths) : (d + e).weight ≤ d.weight + e.weight := by
  have hbraces := Int.natAbs_add_le d.braces e.braces
  have hparens := Int.natAbs_add_le d.parens e.parens
  have hdivs := Int.natAbs_add_le d.divs e.divs
  simp only [weight, braces_add, parens_add, divs_add]
  omega

theorem weight_ofBracket_le (c : Char) :
    (ofBracket c).weight ≤ if isBracket c then 1 else 0 := by
  unfold ofBracket
  split <;> simp [weight, isBracket]

/-- The characters of a text are counted one by one. -/
theorem weight_brackets_le (text : List Char) : (brackets text).weight ≤ text.countP isBracket := by
  induction text with
  | nil => rfl
  | cons c text ih =>
    rw [brackets_cons, List.countP_cons]
    have hadd := weight_add_le (ofBracket c) (brackets text)
    have hfirst := weight_ofBracket_le c
    omega

/-- On the way through a text, too, nothing is counted that was not paid. -/
theorem weight_brackets_le_of_isPrefix (h : start <+: text) :
    (brackets start).weight ≤ (Utf8.encode text).length := by
  have hstart := weight_brackets_le start
  have hsublist := h.sublist.countP_le (p := isBracket)
  have hcharge := charge_le_length_encode text
  omega

theorem weight_tally_le (text : List Char) : (tally text).weight ≤ (Utf8.encode text).length := by
  have hadd := weight_add_le (brackets text) (markers text)
  have hbrackets := weight_brackets_le text
  have hmarkers : (markers text).weight ≤
      4 * Marker.opening.count text + 4 * Marker.closing.count text := by
    simp only [weight, markers]
    omega
  have hcharge := charge_le_length_encode text
  rw [tally]
  omega

end Depths

end DepthGauge
