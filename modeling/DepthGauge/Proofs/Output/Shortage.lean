import DepthGauge.Proofs.Output.Readable

/-!
# Sinks that run out of room

A sink without enough room for a report takes the start of it that fits. Where the writing is cut
off depends on the bytes alone, and not on the pieces in which they arrive. Nothing is written
behind the first piece that does not fit.

## Main results

* `Sink.forM_put_of_error`: the first piece that fails is the last one.
* `Report.write_buffer`: what a sink holds of a report, and what is said about it.
-/

namespace DepthGauge

/-- What comes after a failure is not written, whether or not it would fit. -/
theorem Sink.forM_put_of_error {before : List String} {sink : Sink} {fault : WriteFault}
    (h : (before.forM put sink).1 = .error fault) (after : List String) :
    (before ++ after).forM put sink = before.forM put sink := by
  have hsplit : (before ++ after).forM put = (do before.forM put; after.forM put) := by simp
  rw [hsplit, Writing.bind_apply]
  generalize before.forM put sink = outcome at h ⊢
  obtain ⟨_ | _, _⟩ := outcome
  · rfl
  · cases h

/-- A sink holds the first bytes of a report for which it has room. The writing succeeds exactly if
these are all bytes, and otherwise it says that the sink is full. However the text of the report is
cut into pieces, writing them one after the other does the same, and the first piece that fails is
the last one of which anything is written. -/
theorem Report.write_buffer (report : Report) (room : Nat) :
    let full := (report.write .unlimited).2.written.toList
    let outcome := (report.write (.buffer room)).1
    let sink := (report.write (.buffer room)).2
    full = Utf8.encode (endLines (report.hits.map Hit.format ++
        [report.finalDepths.formatFinal])) ∧
      sink.written.toList = full.take room ∧ sink.written.size = min room full.length ∧
      (outcome = .ok () ↔ full.length ≤ room) ∧
      (outcome = .error .bufferFull ↔ room < full.length) ∧
      ∀ pieces : List String, String.join pieces = report.text →
        pieces.forM Sink.put (.buffer room) = report.write (.buffer room) ∧
          ∀ before after fault, pieces = before ++ after →
            (before.forM Sink.put (.buffer room)).1 = .error fault →
              before.forM Sink.put (.buffer room) = report.write (.buffer room) := by
  intro full outcome sink
  have hfull : full = Utf8.encode report.text.toList := by
    simp [full, Sink.unlimited, write_unlimited]
  have hwrite := report.write_limited #[] room .bufferFull
  rw [← hfull] at hwrite
  have houtcome : outcome = if full.length ≤ room then .ok () else .error .bufferFull :=
    congrArg Prod.fst hwrite
  have hwritten : sink.written.toList = full.take room := by simp [sink, Sink.buffer, hwrite]
  refine ⟨by rw [hfull, toList_text, outputLines], hwritten, ?_, ?_, ?_, fun pieces hjoin => ?_⟩
  · rw [← Array.length_toList, hwritten, List.length_take]
  · rw [houtcome]
    split <;> simp_all
  · rw [houtcome]
    split <;> simp_all
  · have hpieces : pieces.forM Sink.put = report.write := by
      rw [Sink.forM_put, hjoin, write_eq_put]
    refine ⟨by rw [hpieces], fun before after fault hsplit hfault => ?_⟩
    rw [← hpieces, hsplit, Sink.forM_put_of_error hfault]

/-- Room that ends inside a character, that lacks one byte, and that is just enough. The last piece
would fit behind the first one, which is cut off. -/
theorem Report.write_buffer_cut :
    let report : Report := ⟨[⟨2, "é", ⟨0, 1, 0⟩⟩], ⟨-1, 0, 0⟩, 3⟩
    (report.write (.buffer 4)).2.written.toList = [76, 50, 32, 195] ∧
      (report.write (.buffer 4)).1 = .error .bufferFull ∧
      (report.write (.buffer 74)).1 = .error .bufferFull ∧
      (report.write (.buffer 75)).1 = .ok () ∧
      ["L2 é", ": Braces=0, Parens=1, Divs=0\nFinal state: Braces=-1, Parens=0, Divs=0\n"].forM
        Sink.put (.buffer 4) = ["L2 é"].forM Sink.put (.buffer 4) := by
  intro report
  have hbytes : (report.write .unlimited).2.written.toList.take 4 = [76, 50, 32, 195] := by
    decide +kernel
  have hlength : (report.write .unlimited).2.written.toList.length = 75 := by decide +kernel
  obtain ⟨-, hwritten, -, -, hcut, hpieces⟩ := report.write_buffer 4
  obtain ⟨-, -, -, -, hcut', -⟩ := report.write_buffer 74
  obtain ⟨-, -, -, hwhole, -⟩ := report.write_buffer 75
  obtain ⟨hall, hfirst⟩ := hpieces
    ["L2 é", ": Braces=0, Parens=1, Divs=0\nFinal state: Braces=-1, Parens=0, Divs=0\n"]
    (by decide +kernel)
  refine ⟨hwritten.trans hbytes, hcut.2 (by omega), hcut'.2 (by omega), hwhole.2 (by omega), ?_⟩
  exact hall.trans (hfirst ["L2 é"] _ .bufferFull rfl (by decide +kernel)).symm

end DepthGauge
