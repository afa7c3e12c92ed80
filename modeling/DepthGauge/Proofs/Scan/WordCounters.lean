import DepthGauge.Proofs.Balance.Weight
import DepthGauge.Proofs.Scan.Feeding
import Mathlib.Algebra.Order.BigOperators.Group.List
import Mathlib.Algebra.Order.Group.Nat

/-!
# Counters in machine words

The counters of a scan are exact numbers. A machine keeps them in words of 64 bits, in which a sum
can be too large. Until `2 ^ 63` bytes are read none is, and the words hold the exact counters.

## Main definitions

* `Overflow`: what a machine does with a result that does not fit, with the operations
  `Overflow.add` and `Overflow.sub`.
* `WordDepths`: counters in words, with `WordDepths.ofDepths` and `WordDepths.toDepths`.
* `FitsWords d`: each counter is below `wordLimit`, with either sign.
* `Overflow.tally`, `Overflow.feedAll`: the depths of a text and of some feeds, computed in words.

## Main results

* `Overflow.add_ofInt`, `Overflow.sub_ofInt`: one operation.
* `Overflow.tally_eq`, `Overflow.feedAll_eq`: a text and some feeds.
* `scanner_fits_words`: what bounds the counters of a scanner, and that words can hold them.
-/

namespace DepthGauge

/-! ## Machines -/

/-- A result that does not fit is brought back into the range of words, or ends the program. -/
inductive Overflow where
  | wraps
  | fails
deriving DecidableEq, Repr

/-- Counters in words. -/
structure WordDepths where
  braces : Int64
  parens : Int64
  divs : Int64
deriving DecidableEq, Repr

namespace WordDepths

def ofDepths (d : Depths) : WordDepths := ⟨.ofInt d.braces, .ofInt d.parens, .ofInt d.divs⟩

def toDepths (w : WordDepths) : Depths := ⟨w.braces.toInt, w.parens.toInt, w.divs.toInt⟩

end WordDepths

/-- The signed word for the number of finds, which is counted in an unsigned one. -/
def wordOfCount (n : Nat) : Int64 := (UInt64.ofNat n).toInt64

namespace Overflow

/-- The result of an operation, given whether it fits. -/
def settle (o : Overflow) (overflows : Bool) (result : Int64) : Option Int64 :=
  if o = fails ∧ overflows then none else some result

def add (o : Overflow) (x y : Int64) : Option Int64 :=
  o.settle (x.toBitVec.saddOverflow y.toBitVec) (x + y)

def sub (o : Overflow) (x y : Int64) : Option Int64 :=
  o.settle (x.toBitVec.ssubOverflow y.toBitVec) (x - y)

/-- Counts a symbol. -/
def countBracket (o : Overflow) (w : WordDepths) : Char → Option WordDepths
  | '{' => return { w with braces := ← o.add w.braces 1 }
  | '}' => return { w with braces := ← o.sub w.braces 1 }
  | '(' => return { w with parens := ← o.add w.parens 1 }
  | ')' => return { w with parens := ← o.sub w.parens 1 }
  | _ => return w

/-- The depths of a text: its brackets one after the other, and then its markers. -/
def tally (o : Overflow) (text : List Char) : Option WordDepths := do
  let w ← text.foldlM o.countBracket (.ofDepths 0)
  return { w with
    divs := ← o.sub (wordOfCount (Marker.opening.count text))
      (wordOfCount (Marker.closing.count text)) }

def addDepths (o : Overflow) (v w : WordDepths) : Option WordDepths :=
  return ⟨← o.add v.braces w.braces, ← o.add v.parens w.parens, ← o.add v.divs w.divs⟩

/-- Adds the depths of a feed. -/
def feed (o : Overflow) (w : WordDepths) (line : List Char) : Option WordDepths := do
  o.addDepths w (← o.tally line)

/-- The depths after some feeds. -/
def feedAll (o : Overflow) (feeds : List (List Char)) : Option WordDepths :=
  feeds.foldlM o.feed (.ofDepths 0)

end Overflow

/-! ## Numbers that fit -/

variable {x y : Int} {d e : Depths}

/-- `2 ^ 63`. A word holds a smaller number with either sign. -/
def wordLimit : Nat := 0x8000000000000000

theorem toInt_ofInt_of_natAbs_lt (h : x.natAbs < wordLimit) : (Int64.ofInt x).toInt = x := by
  rw [wordLimit] at h
  exact Int64.toInt_ofInt_of_le (by omega) (by omega)

theorem wordOfCount_eq (n : Nat) : wordOfCount n = .ofInt n := UInt64.toInt64_ofNat'

structure FitsWords (d : Depths) : Prop where
  braces : d.braces.natAbs < wordLimit
  parens : d.parens.natAbs < wordLimit
  divs : d.divs.natAbs < wordLimit

theorem fitsWords_of_weight_lt (h : d.weight < wordLimit) : FitsWords d := by
  obtain ⟨hbraces, hparens, hdivs⟩ := d.natAbs_le_weight
  exact ⟨hbraces.trans_lt h, hparens.trans_lt h, hdivs.trans_lt h⟩

theorem WordDepths.toDepths_ofDepths (h : FitsWords d) : (ofDepths d).toDepths = d := by
  ext
  · exact toInt_ofInt_of_natAbs_lt h.braces
  · exact toInt_ofInt_of_natAbs_lt h.parens
  · exact toInt_ofInt_of_natAbs_lt h.divs

/-! ## Bytes of feeds -/

/-- The number of bytes of some feeds. -/
def bytesFed (feeds : List (List Char)) : Nat :=
  (feeds.map fun line => (Utf8.encode line).length).sum

theorem bytesFed_cons (line : List Char) (feeds : List (List Char)) :
    bytesFed (line :: feeds) = (Utf8.encode line).length + bytesFed feeds := by
  simp [bytesFed]

theorem length_encode_le_bytesFed {line : List Char} {feeds : List (List Char)}
    (h : line ∈ feeds) : (Utf8.encode line).length ≤ bytesFed feeds :=
  List.le_sum_of_mem (List.mem_map_of_mem h)

theorem weight_sum_le (feeds : List (List Char)) :
    (feeds.map Depths.tally).sum.weight ≤ bytesFed feeds := by
  induction feeds with
  | nil => rfl
  | cons line feeds ih =>
    have hadd := Depths.weight_add_le (Depths.tally line) (feeds.map Depths.tally).sum
    have hweight := Depths.weight_tally_le line
    rw [List.map_cons, List.sum_cons, bytesFed_cons]
    omega

/-! ## Computing in words -/

namespace Overflow

variable (o : Overflow)

theorem settle_false (result : Int64) : o.settle false result = some result := by
  simp [settle]

theorem add_ofInt (hx : x.natAbs < wordLimit) (hy : y.natAbs < wordLimit)
    (h : (x + y).natAbs < wordLimit) : o.add (.ofInt x) (.ofInt y) = some (.ofInt (x + y)) := by
  have hno : (Int64.ofInt x).toBitVec.saddOverflow (Int64.ofInt y).toBitVec = false := by
    simp only [BitVec.saddOverflow, Int64.toInt_toBitVec, toInt_ofInt_of_natAbs_lt hx,
      toInt_ofInt_of_natAbs_lt hy, Bool.or_eq_false_iff, decide_eq_false_iff_not]
    rw [wordLimit] at h
    omega
  rw [add, hno, settle_false, Int64.ofInt_add]

theorem sub_ofInt (hx : x.natAbs < wordLimit) (hy : y.natAbs < wordLimit)
    (h : (x - y).natAbs < wordLimit) : o.sub (.ofInt x) (.ofInt y) = some (.ofInt (x - y)) := by
  have hno : (Int64.ofInt x).toBitVec.ssubOverflow (Int64.ofInt y).toBitVec = false := by
    simp only [BitVec.ssubOverflow, Int64.toInt_toBitVec, toInt_ofInt_of_natAbs_lt hx,
      toInt_ofInt_of_natAbs_lt hy, Bool.or_eq_false_iff, decide_eq_false_iff_not]
    rw [wordLimit] at h
    omega
  rw [sub, hno, settle_false, Int64.ofInt_sub]

/-- The greatest word, and one more. -/
example : fails.add Int64.maxValue 1 = none ∧ wraps.add Int64.maxValue 1 = some Int64.minValue := by
  decide

theorem addDepths_eq (h : d.weight + e.weight < wordLimit) :
    o.addDepths (.ofDepths d) (.ofDepths e) = some (.ofDepths (d + e)) := by
  have hd : FitsWords d := fitsWords_of_weight_lt (by omega)
  have he : FitsWords e := fitsWords_of_weight_lt (by omega)
  have hsum : FitsWords (d + e) := fitsWords_of_weight_lt ((Depths.weight_add_le d e).trans_lt h)
  rw [addDepths, WordDepths.ofDepths, WordDepths.ofDepths,
    o.add_ofInt hd.braces he.braces hsum.braces, o.add_ofInt hd.parens he.parens hsum.parens,
    o.add_ofInt hd.divs he.divs hsum.divs]
  rfl

theorem countBracket_eq (c : Char) (h : d.weight + 1 < wordLimit) :
    o.countBracket (.ofDepths d) c = some (.ofDepths (d + Depths.ofBracket c)) := by
  have hone : (1 : Int64) = .ofInt 1 := rfl
  have hup {z : Int} (hz : z.natAbs + 1 < wordLimit) :
      o.add (.ofInt z) 1 = some (.ofInt (z + 1)) := by
    rw [hone]
    exact o.add_ofInt (by omega) (by decide) (by omega)
  have hdown {z : Int} (hz : z.natAbs + 1 < wordLimit) :
      o.sub (.ofInt z) 1 = some (.ofInt (z - 1)) := by
    rw [hone]
    exact o.sub_ofInt (by omega) (by decide) (by omega)
  simp only [Depths.weight] at h
  have hbraces : d.braces.natAbs + 1 < wordLimit := by omega
  have hparens : d.parens.natAbs + 1 < wordLimit := by omega
  unfold countBracket Depths.ofBracket
  split
  · simp [WordDepths.ofDepths, hup hbraces]
  · simp [WordDepths.ofDepths, hdown hbraces, Int.sub_eq_add_neg]
  · simp [WordDepths.ofDepths, hup hparens]
  · simp [WordDepths.ofDepths, hdown hparens, Int.sub_eq_add_neg]
  · simp

/-- No symbol changes a counter by more than one. -/
theorem foldlM_countBracket_eq (text : List Char) (h : d.weight + text.length < wordLimit) :
    text.foldlM o.countBracket (.ofDepths d) = some (.ofDepths (d + Depths.brackets text)) := by
  induction text generalizing d with
  | nil => simp
  | cons c text ih =>
    rw [List.length_cons] at h
    have hadd := Depths.weight_add_le d (Depths.ofBracket c)
    have hfirst : (Depths.ofBracket c).weight ≤ 1 :=
      (Depths.weight_ofBracket_le c).trans (by split <;> decide)
    rw [List.foldlM_cons, o.countBracket_eq c (by omega), Option.bind_eq_bind, Option.bind_some,
      ih (by omega), Depths.brackets_cons, Depths.add_assoc]

theorem tally_eq {text : List Char} (h : (Utf8.encode text).length < wordLimit) :
    o.tally text = some (.ofDepths (Depths.tally text)) := by
  have hlength := length_le_length_encode text
  have hcharge := charge_le_length_encode text
  have hbrackets := o.foldlM_countBracket_eq (d := 0) text (by rw [Depths.weight_zero]; omega)
  have hmarkers := o.sub_ofInt (x := Marker.opening.count text) (y := Marker.closing.count text)
    (by omega) (by omega) (by omega)
  have hdivs : (Depths.brackets text).divs = 0 := by rw [Depths.brackets_eq]
  rw [tally, hbrackets, wordOfCount_eq, wordOfCount_eq]
  simp [hmarkers, WordDepths.ofDepths, Depths.tally, Depths.markers, hdivs]

theorem feed_eq {line : List Char} (h : d.weight + (Utf8.encode line).length < wordLimit) :
    o.feed (.ofDepths d) line = some (.ofDepths (d + Depths.tally line)) := by
  have hweight := Depths.weight_tally_le line
  rw [feed, o.tally_eq (by omega), Option.bind_eq_bind, Option.bind_some,
    o.addDepths_eq (by omega)]

theorem foldlM_feed_eq {feeds : List (List Char)} (h : d.weight + bytesFed feeds < wordLimit) :
    feeds.foldlM o.feed (.ofDepths d) = some (.ofDepths (d + (feeds.map Depths.tally).sum)) := by
  induction feeds generalizing d with
  | nil => simp
  | cons line feeds ih =>
    rw [bytesFed_cons] at h
    have hadd := Depths.weight_add_le d (Depths.tally line)
    have hweight := Depths.weight_tally_le line
    rw [List.foldlM_cons, o.feed_eq (by omega), Option.bind_eq_bind, Option.bind_some,
      ih (by omega), List.map_cons, List.sum_cons, add_assoc]

theorem feedAll_eq {feeds : List (List Char)} (h : bytesFed feeds < wordLimit) :
    o.feedAll feeds = some (.ofDepths (feeds.map Depths.tally).sum) := by
  rw [feedAll, o.foldlM_feed_eq (by rw [Depths.weight_zero]; omega), zero_add]

end Overflow

/-! ## Scanners -/

/-- Each byte pays for one bracket at most, or for a part of one marker. The counters of a scanner,
on the way through a feed and behind it, are therefore bounded by the bytes that were fed. As long
as these are fewer than `2 ^ 63`, counting in words never overflows and gives the exact counters. -/
theorem scanner_fits_words (table : Table) (feeds : List (List Char)) :
    (∀ text : List Char, text.countP isBracket + 4 * Marker.opening.count text +
        6 * Marker.closing.count text ≤ (Utf8.encode text).length) ∧
      (Scanner.after table feeds).depths.weight ≤ bytesFed feeds ∧
      (∀ line ∈ feeds, (Depths.tally line).weight ≤ bytesFed feeds ∧
        ∀ start, start <+: line → (Depths.brackets start).weight ≤ bytesFed feeds) ∧
      (bytesFed feeds < wordLimit → ∀ o : Overflow,
        (∀ line ∈ feeds, ∀ m : Marker, (wordOfCount (m.count line)).toInt = m.count line) ∧
          ∃ w, o.feedAll feeds = some w ∧ w.toDepths = (Scanner.after table feeds).depths) := by
  have hweight : (feeds.map Depths.tally).sum.weight ≤ bytesFed feeds := weight_sum_le feeds
  rw [Scanner.depths_after]
  refine ⟨charge_le_length_encode, hweight, fun line hline => ⟨?_, fun start hstart => ?_⟩,
    fun hbytes o => ⟨fun line hline m => ?_, ?_⟩⟩
  · exact (Depths.weight_tally_le line).trans (length_encode_le_bytesFed hline)
  · exact (Depths.weight_brackets_le_of_isPrefix hstart).trans (length_encode_le_bytesFed hline)
  · have hcharge := charge_le_length_encode line
    have hfed := length_encode_le_bytesFed hline
    rw [wordOfCount_eq]
    exact toInt_ofInt_of_natAbs_lt (by cases m <;> omega)
  · have hfits : FitsWords (feeds.map Depths.tally).sum :=
      fitsWords_of_weight_lt (hweight.trans_lt hbytes)
    exact ⟨_, o.feedAll_eq hbytes, WordDepths.toDepths_ofDepths hfits⟩

/-- Characters of several bytes, and counters on both sides of zero. -/
theorem scanner_fits_words_multibyte :
    let feeds := ["(\x7b€".toList, "</div>)\x7b\n".toList]
    bytesFed feeds < wordLimit ∧ (Scanner.after .empty feeds).depths.weight ≤ bytesFed feeds ∧
      ∀ o : Overflow, ∃ w, o.feedAll feeds = some w ∧ w.toDepths = ⟨2, 0, -1⟩ := by
  intro feeds
  have hbytes : bytesFed feeds < wordLimit := by decide +kernel
  have hdepths : (Scanner.after .empty feeds).depths = ⟨2, 0, -1⟩ := by
    rw [Scanner.depths_after]
    decide +kernel
  obtain ⟨-, hweight, -, hwords⟩ := scanner_fits_words .empty feeds
  refine ⟨hbytes, hweight, fun o => ?_⟩
  rw [← hdepths]
  exact (hwords hbytes o).2

end DepthGauge
