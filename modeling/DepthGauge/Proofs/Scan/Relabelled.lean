import DepthGauge.Proofs.Balance.Counting
import DepthGauge.Proofs.Scan.Snapshot

/-!
# Scans of relabelled texts

A scan reacts to twelve symbols. All others only take up room: each of them can be exchanged for any
other one, whatever their bytes are, and the report stays the same.

## Main definitions

* `structural`: the symbols that a scan reacts to.
* `Fixes f c`: the symbol `c` stays where it is, and no other one becomes it.
* `KeepsStructure f`: the relabelling `f` keeps the structural symbols and makes no new ones.

## Main results

* `isPrefix_map_iff`: a text of fixed symbols is found where it was.
* `lines_map`: the lines of a relabelled text are the relabelled lines.
* `KeepsStructure.tally_map`: a relabelled text counts the same.
* `scanText_map`: its report is the same.
-/

namespace DepthGauge

open LineSymbol

/-! ## Symbols that stay -/

section Fixes

variable {α : Type} {f : α → α} {c : α}

def Fixes (f : α → α) (c : α) : Prop := ∀ d, f d = c ↔ d = c

theorem count_map_of_fixes [DecidableEq α] (h : Fixes f c) (text : List α) :
    (text.map f).count c = text.count c := by
  simp only [List.count_eq_countP, List.countP_map]
  exact List.countP_congr fun d _ => by simp [h d]

theorem isPrefix_map_iff {piece : List α} (h : ∀ c ∈ piece, Fixes f c) (text : List α) :
    piece <+: text.map f ↔ piece <+: text := by
  induction piece generalizing text with
  | nil => simp
  | cons c piece ih =>
    obtain ⟨hc, hpiece⟩ := List.forall_mem_cons.1 h
    cases text with
    | nil => simp
    | cons d text =>
      have hd : c = f d ↔ c = d := eq_comm.trans ((hc d).trans eq_comm)
      rw [List.map_cons, List.cons_prefix_cons, List.cons_prefix_cons, hd, ih hpiece]

/-- Lines are cut by what the two symbols of a terminator are, and where they stand. -/
theorem lines_map [DecidableEq α] [LineSymbol α] (hlf : Fixes f lf) (hcr : Fixes f cr)
    (text : List α) : lines (text.map f) = (lines text).map (List.map f) := by
  have hattach (c : α) (ls : List (List α)) :
      attach (f c) (ls.map (List.map f)) = (attach c ls).map (List.map f) := by
    cases ls with
    | nil => rfl
    | cons line rest =>
      have hhead : (line.map f).head? = some lf ↔ line.head? = some lf := by
        cases line <;> simp [hlf _]
      simp only [List.map_cons, attach, hlf c, hcr c, ne_eq, hhead]
      split <;> rfl
  induction text with
  | nil => rfl
  | cons c text ih => rw [List.map_cons, lines_cons, ih, hattach, lines_cons]

end Fixes

/-! ## Texts with other symbols -/

def structural : List Char := ['{', '}', '(', ')', '<', '/', 'd', 'i', 'v', '>', '\n', '\r']

structure KeepsStructure (f : Char → Char) : Prop where
  keeps : ∀ c ∈ structural, f c = c
  others : ∀ c, c ∉ structural → f c ∉ structural

namespace KeepsStructure

variable {f : Char → Char} (h : KeepsStructure f)

include h

/-- What becomes a structural symbol is one, and so it is the same. -/
theorem fixes {c : Char} (hc : c ∈ structural) : Fixes f c := by
  intro d
  constructor
  · intro hd
    by_cases hmem : d ∈ structural
    · rw [← h.keeps d hmem, hd]
    · exact absurd (hd ▸ hc) (h.others d hmem)
  · rintro rfl
    exact h.keeps d hc

theorem count_map (m : Marker) (text : List Char) : m.count (text.map f) = m.count text := by
  have hstructural : ∀ c ∈ m.text, c ∈ structural := by
    cases m <;> simp [Marker.text, structural]
  induction text with
  | nil => rfl
  | cons c text ih =>
    have hstart := isPrefix_map_iff (fun d hd => h.fixes (hstructural d hd)) (c :: text)
    rw [List.map_cons] at hstart ⊢
    simp only [Marker.count_cons, ih, hstart]

theorem tally_map (text : List Char) : Depths.tally (text.map f) = Depths.tally text := by
  have hcount {c : Char} (hc : c ∈ structural) : (text.map f).count c = text.count c :=
    count_map_of_fixes (h.fixes hc) text
  have hbrackets : Depths.brackets (text.map f) = Depths.brackets text := by
    rw [Depths.brackets_eq, Depths.brackets_eq, hcount (by decide), hcount (by decide),
      hcount (by decide), hcount (by decide)]
  rw [Depths.tally, hbrackets, Depths.markers, h.count_map, h.count_map, Depths.tally,
    Depths.markers]

end KeepsStructure

/-- The report of a text does not depend on which symbols stand between the structural ones. -/
theorem scanText_map {f : Char → Char} (h : KeepsStructure f) (text : List Char) (table : Table) :
    scanText (text.map f) table = scanText text table := by
  rw [scanText, lines_map (h.fixes (by decide)) (h.fixes (by decide))]
  refine scanLines_congr ?_ table
  rw [List.map_map]
  exact List.map_congr_left fun line _ => h.tally_map line

/-- One symbol of three bytes for all others, also for those that part a line end and a marker. -/
theorem scanText_map_widened : ∃ table,
    Table.ofEntries [⟨2, "second"⟩, ⟨1, "first"⟩] = .ok table ∧
      let f : Char → Char := fun c => if c ∈ structural then c else '€'
      KeepsStructure f ∧
        scanText "(€€<div€€€\r€\n€<di€v\x7b".toList table =
          scanText "(é <div x=\r.\na<di v\x7b".toList table := by
  obtain ⟨table, h⟩ : ∃ table, Table.ofEntries [⟨2, "second"⟩, ⟨1, "first"⟩] = .ok table :=
    Table.ofEntries_isOk_iff.2 (by decide)
  have hkeeps : KeepsStructure fun c => if c ∈ structural then c else '€' := by
    refine ⟨fun c hc => if_pos hc, fun c hc => ?_⟩
    rw [if_neg hc]
    decide
  refine ⟨table, h, hkeeps, ?_⟩
  rw [← scanText_map hkeeps "(é <div x=\r.\na<di v\x7b".toList]
  exact congrArg (scanText · table) (by decide +kernel)

end DepthGauge
