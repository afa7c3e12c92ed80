import DepthGauge.Output.ReportText

/-!
# What is printed

A report is written in pieces, and a piece that does not fit ends the writing. The outcome is the
same as if the whole text were written in one piece.

## Main definitions

* `Report.text`: the whole text of a report.

## Main results

* `Sink.put_append`, `Sink.forM_put`: two pieces, or any, are one piece.
* `Report.write_eq_put`: writing a report is writing its text.
* `Report.write_unlimited`, `Report.write_limited`: what is then in the sink.
-/

namespace DepthGauge

variable {α β : Type}

theorem Writing.bind_apply (x : Writing α) (f : α → Writing β) (sink : Sink) :
    (x >>= f) sink = match x sink with
      | (.ok a, sink) => f a sink
      | (.error fault, sink) => (.error fault, sink) := by
  change (match x sink with | (r, s) => ExceptT.bindCont f r s) = _
  rcases x sink with ⟨_ | _, _⟩ <;> rfl

namespace Sink

theorem put_unlimited (text : String) (written : Array UInt8) (fault : WriteFault) :
    put text ⟨written, none, fault⟩ =
      (.ok (), ⟨written ++ Utf8.encode text.toList, none, fault⟩) := rfl

theorem put_limited (text : String) (written : Array UInt8) (room : Nat) (fault : WriteFault) :
    put text ⟨written, some room, fault⟩ =
      (if (Utf8.encode text.toList).length ≤ room then .ok () else .error fault,
        ⟨written ++ (Utf8.encode text.toList).take room,
          some (room - (Utf8.encode text.toList).length), fault⟩) := by
  simp only [put]
  split <;> rfl

/-- Two pieces are one piece. -/
theorem put_append (a b : String) : put (a ++ b) = (do put a; put b) := by
  funext sink
  rw [Writing.bind_apply]
  have hbytes : Utf8.encode (a ++ b).toList = Utf8.encode a.toList ++ Utf8.encode b.toList := by
    rw [String.toList_append, Utf8.encode_append]
  have happend (w : Array UInt8) (x y : List UInt8) : w ++ (x ++ y) = w ++ x ++ y := by
    apply Array.ext'
    simp
  rcases sink with ⟨written, _ | room, fault⟩
  · simp only [put_unlimited, hbytes, happend]
  · rw [put_limited, put_limited, hbytes, List.length_append]
    by_cases ha : (Utf8.encode a.toList).length ≤ room
    · -- The first piece fits, and the second one has the room that it leaves.
      simp only [if_pos ha, put_limited]
      rw [List.take_append, List.take_of_length_le ha, happend, Nat.sub_sub]
      simp only [Nat.le_sub_iff_add_le' ha]
    · have hfull : ¬ (Utf8.encode a.toList).length + (Utf8.encode b.toList).length ≤ room := by
        omega
      have hroom : room - ((Utf8.encode a.toList).length + (Utf8.encode b.toList).length) =
          room - (Utf8.encode a.toList).length := by omega
      simp only [if_neg ha, if_neg hfull]
      rw [List.take_append_of_le_length (by omega), hroom]

theorem put_empty : put "" = pure () := by
  funext sink
  have hpure : (pure () : Writing Unit) sink = (.ok (), sink) := rfl
  rw [hpure]
  rcases sink with ⟨written, _ | room, fault⟩
  · simp [put_unlimited]
  · simp [put_limited]

/-- Any pieces are one piece. -/
theorem forM_put (pieces : List String) : pieces.forM put = put (String.join pieces) := by
  induction pieces with
  | nil => exact put_empty.symm
  | cons piece pieces ih =>
    have hforM : (piece :: pieces).forM put = (do put piece; pieces.forM put) := rfl
    rw [hforM, ih, String.join_cons, put_append]

end Sink

/-- The hits, a line each. -/
def hitLines (hits : List Hit) : String := String.join (hits.map fun hit => hit.format ++ "\n")

/-- All that is printed for a report. -/
def Report.text (report : Report) : String :=
  hitLines report.hits ++ (report.finalDepths.formatFinal ++ "\n")

theorem hitLines_cons (hit : Hit) (hits : List Hit) :
    hitLines (hit :: hits) = hit.format ++ "\n" ++ hitLines hits := by
  simp [hitLines]

theorem Report.write_eq_put (report : Report) : report.write = Sink.put report.text := by
  have hhits : report.hits.forM (fun hit => Sink.putLine hit.format) =
      Sink.put (hitLines report.hits) := by
    rw [hitLines, ← Sink.forM_put]
    simp [Sink.putLine]
  rw [write, hhits, text, Sink.put_append]
  rfl

theorem Report.encode_text_ne_nil (report : Report) : Utf8.encode report.text.toList ≠ [] := by
  rw [text, ← String.append_assoc, String.toList_append, Utf8.encode_append]
  exact List.append_ne_nil_of_right_ne_nil _ (by decide)

theorem Report.write_unlimited (report : Report) (written : Array UInt8) (fault : WriteFault) :
    report.write ⟨written, none, fault⟩ =
      (.ok (), ⟨written ++ Utf8.encode report.text.toList, none, fault⟩) := by
  rw [write_eq_put, Sink.put_unlimited]

theorem Report.write_limited (report : Report) (written : Array UInt8) (room : Nat)
    (fault : WriteFault) : report.write ⟨written, some room, fault⟩ =
      (if (Utf8.encode report.text.toList).length ≤ room then .ok () else .error fault,
        ⟨written ++ (Utf8.encode report.text.toList).take room,
          some (room - (Utf8.encode report.text.toList).length), fault⟩) := by
  rw [write_eq_put, Sink.put_limited]

/-- A report that is not empty does not fit where nothing fits. -/
theorem Report.write_full (report : Report) (written : Array UInt8) (fault : WriteFault) :
    report.write ⟨written, some 0, fault⟩ = (.error fault, ⟨written, some 0, fault⟩) := by
  have hlength : 0 < (Utf8.encode report.text.toList).length :=
    List.length_pos_iff.2 report.encode_text_ne_nil
  rw [write_limited, if_neg (by omega), List.take_zero]
  simp

/-- Writing succeeds if the whole report was written. -/
theorem Report.write_eq_ok_iff (report : Report) {sink : Sink} (h : sink.written = #[]) :
    (report.write sink).1 = .ok () ↔
      (report.write sink).2.written.toList = Utf8.encode report.text.toList := by
  obtain ⟨_, _ | room, fault⟩ := sink
  · subst h
    simp [write_unlimited]
  · subst h
    rw [write_limited]
    by_cases hfits : (Utf8.encode report.text.toList).length ≤ room
    · simp [hfits, List.take_of_length_le hfits]
    · have hcut : (Utf8.encode report.text.toList).take room ≠ Utf8.encode report.text.toList := by
        intro heq
        have hlength := congrArg List.length heq
        rw [List.length_take] at hlength
        omega
      simp only [if_neg hfits]
      exact ⟨nofun, fun heq => absurd (by simpa using heq) hcut⟩

end DepthGauge
