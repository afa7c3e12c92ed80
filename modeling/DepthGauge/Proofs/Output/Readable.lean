import DepthGauge.Proofs.Output.Printed
import DepthGauge.Proofs.Text.Encoding
import DepthGauge.Proofs.Text.Separator

/-!
# Reading a printed report

A printed report quotes nothing, and its labels can look like any other part of it. It can still be
read in one way only: a label ends before the last colon of its line, because no colon stands in the
depths behind it, and whatever a label looks like, the last line is the one of the final depths.

## Main definitions

* `endLines ls`: some lines, each followed by a line end.
* `Report.outputLines`: the lines of a report.

## Main results

* `endLines_injective`: lines that hold no line end are where the line ends are.
* `Depths.display_injective`, `Hit.format_injective`: one line.
* `Report.write_injective`: the whole report.
-/

namespace DepthGauge

/-! ## Lines -/

def endLines (ls : List String) : List Char := ls.flatMap fun line => line.toList ++ ['\n']

theorem endLines_cons (line : String) (ls : List String) :
    endLines (line :: ls) = line.toList ++ '\n' :: endLines ls := by
  simp [endLines]

/-- Neither first line holds a line end, so both end at the first one. -/
theorem endLines_injective {x y : List String} (hx : ∀ line ∈ x, '\n' ∉ line.toList)
    (hy : ∀ line ∈ y, '\n' ∉ line.toList) (h : endLines x = endLines y) : x = y := by
  induction x generalizing y with
  | nil =>
    cases y with
    | nil => rfl
    | cons other y => simp [endLines] at h
  | cons line x ih =>
    cases y with
    | nil => simp [endLines] at h
    | cons other y =>
      rw [endLines_cons, endLines_cons] at h
      simp only [List.mem_cons, forall_eq_or_imp] at hx hy
      obtain ⟨hline, hrest⟩ := (append_cons_inj_of_not_mem_left hx.1 hy.1).1 h
      rw [String.toList_inj.1 hline, ih hx.2 hy.2 hrest]

/-! ## Depths -/

namespace Depths

variable {d e : Depths}

theorem toList_display (d : Depths) : d.display.toList =
    "Braces=".toList ++ (d.braces.repr.toList ++ ',' ::
      (" Parens=".toList ++ (d.parens.repr.toList ++ ',' ::
        (" Divs=".toList ++ d.divs.repr.toList)))) := by
  have hdisplay : d.display = "Braces=" ++ d.braces.repr ++ ", Parens=" ++ d.parens.repr ++
    ", Divs=" ++ d.divs.repr := rfl
  simp [hdisplay]

/-- The two commas are where the numbers end. -/
theorem display_injective (h : d.display = e.display) : d = e := by
  have hcomma (z : Int) : ',' ∉ z.repr.toList := not_mem_int_repr (by decide) (by decide) z
  have hlists := congrArg String.toList h
  simp only [toList_display, List.append_cancel_left_eq,
    append_cons_inj_of_not_mem_left (hcomma _) (hcomma _), String.toList_inj,
    Int.repr_inj] at hlists
  obtain ⟨hbraces, hparens, hdivs⟩ := hlists
  exact Depths.ext hbraces hparens hdivs

theorem not_mem_display {c : Char} (hdigit : c.isDigit = false) (hsign : c ≠ '-')
    (hname : c ∉ "Braces=, Parens=, Divs=".toList) (d : Depths) : c ∉ d.display.toList := by
  have hnumber (z : Int) : c ∉ z.repr.toList := not_mem_int_repr hdigit hsign z
  simp at hname
  simp [toList_display, hnumber, hname]

theorem toList_formatFinal (d : Depths) :
    d.formatFinal.toList = "Final state: ".toList ++ d.display.toList := by
  have hformat : d.formatFinal = "Final state: " ++ d.display := rfl
  simp [hformat]

theorem formatFinal_injective (h : d.formatFinal = e.formatFinal) : d = e := by
  have hlists := congrArg String.toList h
  rw [toList_formatFinal, toList_formatFinal, List.append_cancel_left_eq] at hlists
  exact display_injective (String.toList_inj.1 hlists)

theorem newline_not_mem_formatFinal (d : Depths) : '\n' ∉ d.formatFinal.toList := by
  simp [toList_formatFinal, not_mem_display]

end Depths

/-! ## Hits -/

namespace Hit

variable {a b : Hit}

theorem toList_format (hit : Hit) : hit.format.toList =
    'L' :: (hit.line.repr.toList ++ ' ' ::
      (hit.label.toList ++ ':' :: ' ' :: hit.depths.display.toList)) := by
  have hformat : hit.format = "L" ++ hit.line.repr ++ " " ++ hit.label ++ ": " ++
    hit.depths.display := rfl
  simp [hformat]

/-- The first blank is where the line number ends, and the last colon where the label ends. -/
theorem format_injective (h : a.format = b.format) : a = b := by
  have hblank (n : Nat) : ' ' ∉ n.repr.toList := not_mem_repr (by decide) n
  have hcolon (d : Depths) : ':' ∉ ' ' :: d.display.toList := by simp [Depths.not_mem_display]
  have hlists := congrArg String.toList h
  simp only [toList_format, List.cons.injEq, true_and,
    append_cons_inj_of_not_mem_left (hblank _) (hblank _),
    append_cons_inj_of_not_mem_right (hcolon _) (hcolon _), String.toList_inj,
    Nat.repr_inj] at hlists
  obtain ⟨hline, hlabel, hdepths⟩ := hlists
  exact Hit.ext hline hlabel (Depths.display_injective hdepths)

/-- Only the label can bring line ends into the line of a hit. -/
theorem count_newline_format (hit : Hit) :
    hit.format.toList.count '\n' = hit.label.toList.count '\n' := by
  have hline : hit.line.repr.toList.count '\n' = 0 :=
    List.count_eq_zero.2 (not_mem_repr (by decide) hit.line)
  have hdepths : hit.depths.display.toList.count '\n' = 0 :=
    List.count_eq_zero.2 (by simp [Depths.not_mem_display])
  rw [Nat.toList_repr] at hline
  simp [toList_format, hline, hdepths]

theorem newline_mem_format_iff : '\n' ∈ a.format.toList ↔ '\n' ∈ a.label.toList := by
  rw [← List.count_pos_iff, count_newline_format, List.count_pos_iff]

end Hit

/-! ## Reports -/

namespace Report

def outputLines (report : Report) : List String :=
  report.hits.map Hit.format ++ [report.finalDepths.formatFinal]

theorem toList_text (report : Report) : report.text.toList = endLines report.outputLines := by
  have hhits (hits : List Hit) : (hitLines hits).toList = endLines (hits.map Hit.format) := by
    induction hits with
    | nil => simp [hitLines, endLines]
    | cons hit hits ih => simp [hitLines_cons, ih, endLines_cons]
  rw [outputLines, endLines, List.flatMap_append, ← endLines, ← hhits]
  simp [text]

theorem newline_not_mem_outputLines_iff (report : Report) :
    (∀ line ∈ report.outputLines, '\n' ∉ line.toList) ↔
      ∀ hit ∈ report.hits, '\n' ∉ hit.label.toList := by
  simp [outputLines, or_imp, forall_and, Hit.newline_mem_format_iff,
    Depths.newline_not_mem_formatFinal]

theorem eq_of_toList_text_eq {r s : Report} (hr : ∀ hit ∈ r.hits, '\n' ∉ hit.label.toList)
    (hs : ∀ hit ∈ s.hits, '\n' ∉ hit.label.toList) (h : r.text.toList = s.text.toList) :
    r.hits = s.hits ∧ r.finalDepths = s.finalDepths := by
  rw [toList_text, toList_text] at h
  have hlines : r.outputLines = s.outputLines := endLines_injective
    (r.newline_not_mem_outputLines_iff.2 hr) (s.newline_not_mem_outputLines_iff.2 hs) h
  obtain ⟨hhits, hfinal⟩ := List.append_inj' hlines rfl
  exact ⟨(List.map_inj_right fun _ _ => Hit.format_injective).1 hhits,
    Depths.formatFinal_injective (List.singleton_inj.1 hfinal)⟩

/-- Two reports that are printed as the same bytes have the same hits and final depths, whatever
their labels look like, if no label holds a line end. -/
theorem write_injective {r s : Report} (hr : ∀ hit ∈ r.hits, '\n' ∉ hit.label.toList)
    (hs : ∀ hit ∈ s.hits, '\n' ∉ hit.label.toList)
    (h : (r.write .unlimited).2.written = (s.write .unlimited).2.written) :
    r.hits = s.hits ∧ r.finalDepths = s.finalDepths := by
  simp only [Sink.unlimited, write_unlimited] at h
  have hbytes : Utf8.encode r.text.toList = Utf8.encode s.text.toList := by
    simpa using congrArg Array.toList h
  exact eq_of_toList_text_eq hr hs (Utf8.encode_injective hbytes)

/-- Labels that look like the end of a line, like nothing, and like the last line. The number of
lines is not printed. -/
theorem write_injective_imitating :
    let hits : List Hit := [⟨3, "a: Braces=1, Parens=2, Divs=3", ⟨-1, 0, 2⟩⟩, ⟨7, "", 0⟩,
      ⟨12, "Final state: ", ⟨0, 0, -4⟩⟩]
    let r : Report := ⟨hits, ⟨0, 1, 0⟩, 12⟩
    let s : Report := ⟨hits, ⟨0, 1, 0⟩, 99⟩
    (∀ hit ∈ r.hits, '\n' ∉ hit.label.toList) ∧ (∀ hit ∈ s.hits, '\n' ∉ hit.label.toList) ∧
      (r.write .unlimited).2.written = (s.write .unlimited).2.written ∧
      r.hits = s.hits ∧ r.finalDepths = s.finalDepths := by
  intro hits r s
  have hlabels : ∀ hit ∈ hits, '\n' ∉ hit.label.toList := by decide
  exact ⟨hlabels, hlabels, rfl, write_injective (r := r) (s := s) hlabels hlabels rfl⟩

end Report

end DepthGauge
