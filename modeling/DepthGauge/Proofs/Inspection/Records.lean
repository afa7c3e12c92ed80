import DepthGauge.Inspection.Inspect
import DepthGauge.Proofs.Output.Printed
import DepthGauge.Proofs.Scan.Snapshot

/-!
# The records of an inspection

An inspection has a loop of its own over the lines, which notes each hit. It gives the report of the
whole text, and what it notes is what is printed for that report.

## Main definitions

* `Report.records`: the records of an inspection with a report.
* `Event.checkpoint?`: the checkpoint that a record is about.

## Main results

* `foldl_noteLine`: the loop against the scan, with what it notes.
* `inspect_of_decode`: the outcome and the records for a file that holds text.
* `inspect_agrees_with_report`: the records against the printed report and the table.
-/

namespace DepthGauge

/-! ## The loop -/

theorem fst_noteLine (state : Scanner × Array Event) (line : List Char) :
    (noteLine state line).1 = state.1.feed line := by
  rw [Scanner.feed, noteLine]
  split <;> simp [*]

theorem snd_noteLine (state : Scanner × Array Event) (line : List Char) :
    (noteLine state line).2.toList =
      state.2.toList ++ (state.1.feedLine line).1.toList.map .reached := by
  rw [noteLine]
  split <;> simp [*]

/-- Lines keep the notes in step with the hits. -/
theorem foldl_noteLine {state : Scanner × Array Event}
    (h : state.2.toList = state.1.hits.toList.map .reached) (ls : List (List Char)) :
    (ls.foldl noteLine state).1 = ls.foldl Scanner.feed state.1 ∧
      (ls.foldl noteLine state).2.toList =
        (ls.foldl Scanner.feed state.1).hits.toList.map .reached := by
  induction ls generalizing state with
  | nil => exact ⟨rfl, h⟩
  | cons line ls ih =>
    have hnext : (noteLine state line).2.toList =
        (noteLine state line).1.hits.toList.map .reached := by
      rw [snd_noteLine, fst_noteLine, Scanner.hits_feed, h, List.map_append]
    rw [List.foldl_cons, List.foldl_cons, ← fst_noteLine]
    exact ih hnext

/-! ## The records -/

/-- The records of an inspection of a file with some bytes, whose text has a report. -/
def Report.records (report : Report) (config : Config) (size : Nat) : List Event :=
  .read size config.path :: (report.hits.map .reached ++
    .scanned report.lineCount config.path report.hits.length ::
      (config.checkpoints.unreached report.lineCount).map
        (.pastEnd · config.path report.lineCount))

variable {files : FileReader} {config : Config} {bytes : List UInt8} {text : List Char}

theorem inspect_of_decode (hfile : files config.path = .ok bytes)
    (htext : Utf8.decode bytes = .ok text) :
    inspect files config = ⟨(scanText text config.checkpoints).records config bytes.length,
      .ok (scanText text config.checkpoints)⟩ := by
  have hread : readSource files config.path = ⟨[.read bytes.length config.path], .ok text⟩ := by
    rw [readSource_of_ok hfile, htext]
    rfl
  obtain ⟨hscanner, hnotes⟩ := @foldl_noteLine (.start config.checkpoints, #[]) rfl (lines text)
  rw [inspect, hread]
  simp only [Logged.ok_bind, Logged.record, Logged.pure_eq, hscanner, hnotes]
  simp [Report.records, scanText, scanLines, Scanner.finish]

theorem inspect_of_fileFault {fault : FileFault} (hfile : files config.path = .error fault) :
    inspect files config = ⟨[], .error (.fileAccess config.path fault)⟩ := by
  rw [inspect, readSource_of_error hfile]
  rfl

theorem inspect_of_decodeFault {fault : Utf8.Fault} (hfile : files config.path = .ok bytes)
    (htext : Utf8.decode bytes = .error fault) :
    inspect files config = ⟨[.read bytes.length config.path],
      .error (.decoding config.path (faultLine bytes fault) fault)⟩ := by
  rw [inspect, readSource_of_ok hfile, htext]
  rfl

/-! ## The records of a checkpoint -/

/-- The checkpoint that a record is about. -/
def Event.checkpoint? : Event → Option Checkpoint
  | reached hit => some hit.checkpoint
  | pastEnd checkpoint .. => some checkpoint
  | _ => none

theorem map_checkpoint_hits {table : Table} (h : table.IsIndexed) (text : List Char) :
    (scanText text table).hits.map Hit.checkpoint =
      Checkpoint.reached table.toList (scanText text table).lineCount := by
  rw [scanText, map_checkpoint_scanLines h, scanLines_eq h]

/-- Records about the checkpoints of a list, all of one level. -/
theorem levels_map {α : Type} {f : α → Event} {about : α → Checkpoint} {level : Level}
    (habout : ∀ x, (f x).checkpoint? = some (about x)) (hlevel : ∀ x, (f x).level = level)
    (l : List α) (hnodup : (l.map about).Nodup) (c : Checkpoint) :
    ((l.map f).filter (·.checkpoint? = some c)).map Event.level =
      if c ∈ l.map about then [level] else [] := by
  have hfilter : (l.map f).filter (·.checkpoint? = some c) = (l.filter (about · = c)).map f := by
    rw [List.filter_map]
    congr 2
    funext x
    simp [habout]
  have hlevels (l : List α) : (l.map f).map Event.level = (l.map about).map fun _ => level := by
    simp [hlevel]
  have hone : (l.filter (about · = c)).map about = (l.map about).filter (· = c) := by
    rw [List.filter_map]
    rfl
  rw [hfilter, hlevels, hone, filter_eq_of_nodup hnodup]
  split <;> rfl

/-- A checkpoint has one record. Its level tells whether the line was reached. -/
theorem levels_about {report : Report} (h : config.checkpoints.IsIndexed)
    (hhits : report.hits.map Hit.checkpoint =
      Checkpoint.reached config.checkpoints.toList report.lineCount)
    {c : Checkpoint} (hc : c ∈ config.checkpoints.toList) (size : Nat) :
    ((report.records config size).filter (·.checkpoint? = some c)).map Event.level =
      [if c.line ≤ report.lineCount then .trace else .warn] := by
  have hnodup : config.checkpoints.toList.Nodup := h.nodup_lines.of_map _
  have hreached : (report.hits.map Hit.checkpoint).Nodup := by
    rw [hhits]
    exact (Checkpoint.reached_perm _ _).nodup_iff.2 (hnodup.filter _)
  have hunreached : ((config.checkpoints.unreached report.lineCount).map id).Nodup := by
    rw [List.map_id]
    exact hnodup.filter _
  have htrace := levels_map (f := Event.reached) (fun _ => rfl) (fun _ => rfl) _
    hreached c
  have hwarn := levels_map (f := fun c => Event.pastEnd c config.path report.lineCount)
    (fun _ => rfl) (fun _ => rfl) _ hunreached c
  rw [Report.records, List.filter_cons_of_neg (by simp [Event.checkpoint?]),
    List.filter_append, List.map_append, htrace,
    List.filter_cons_of_neg (by simp [Event.checkpoint?]), hwarn]
  by_cases hline : c.line ≤ report.lineCount
  · simp [hhits, Checkpoint.mem_reached, Table.mem_unreached, hc, hline]
  · simp [hhits, Checkpoint.mem_reached, Table.mem_unreached, hc, hline, Nat.lt_of_not_le hline]

/-! ## Agreement -/

theorem join_traces (report : Report) (config : Config) (size : Nat) :
    String.join (((report.records config size).filter (·.level = .trace)).map
      (·.message ++ "\n")) = hitLines report.hits := by
  have htrace (hits : List Hit) :
      (hits.map Event.reached).filter (·.level = .trace) = hits.map .reached := by
    simp [List.filter_map, Function.comp_def, Event.level]
  have hwarn (l : List Checkpoint) (n : Nat) :
      (l.map (Event.pastEnd · config.path n)).filter (·.level = .trace) = [] := by
    simp [List.filter_map, Function.comp_def, Event.level]
  rw [Report.records, List.filter_cons_of_neg (by simp [Event.level]), List.filter_append, htrace,
    List.filter_cons_of_neg (by simp [Event.level]), hwarn, List.append_nil, List.map_map]
  rfl

/-- An inspection of a file that holds text gives the report of the text. It tells of the reading,
of each hit, of the end and of each checkpoint behind the end, in this order, and of nothing else.
What it tells of the hits is what is printed for them, and the line of the final depths is all that
is printed behind it. It tells of each checkpoint once. The table is any that was made of
checkpoints, as the built-in one is. -/
theorem inspect_agrees_with_report {entries : List Checkpoint}
    (htable : Table.ofEntries entries = .ok config.checkpoints)
    (hfile : files config.path = .ok bytes) (htext : Utf8.decode bytes = .ok text) :
    let report := scanText text config.checkpoints
    let log := (inspect files config).log
    let n := report.lineCount
    let noted := String.join ((log.filter (·.level = .trace)).map (·.message ++ "\n"))
    (inspect files config).outcome = .ok report ∧
      log.map (fun e => (e.level, e.message)) =
        (.debug, s!"read {bytes.length} bytes from {config.path}") ::
          (report.hits.map (fun hit =>
            (.trace, s!"L{hit.line} {hit.label}: {hit.depths.display}")) ++
          (.debug,
            s!"scanned {n} lines of {config.path}, {report.hits.length} checkpoint(s) hit") ::
          (entries.filter (n < ·.line)).map fun c =>
            (.warn,
              s!"checkpoint L{c.line} {c.label} is past the end of {config.path} ({n} lines)")) ∧
      report.write = (do
        Sink.put noted
        Sink.putLine report.finalDepths.formatFinal) ∧
      (report.write .unlimited).1 = .ok () ∧
      (report.write .unlimited).2.written.toList = Utf8.encode
        (noted ++ s!"Final state: {report.finalDepths.display}\n").toList ∧
      ∀ c ∈ entries, (log.filter (·.checkpoint? = some c)).map Event.level =
        [if c.line ≤ n then .trace else .warn] := by
  obtain ⟨hindexed, rfl⟩ := Table.of_ofEntries_eq_ok htable
  have hhits := map_checkpoint_hits hindexed text
  have hrun := inspect_of_decode hfile htext
  intro report log n noted
  have hlog : log = report.records config bytes.length := congrArg Logged.log hrun
  have hnoted : noted = hitLines report.hits := by
    simp only [noted, hlog]
    exact join_traces report config bytes.length
  have hprinted : report.text = noted ++ s!"Final state: {report.finalDepths.display}\n" := by
    rw [hnoted]
    rfl
  refine ⟨congrArg Logged.outcome hrun, ?_, ?_, ?_, ?_, ?_⟩
  · rw [hlog, Report.records, Table.unreached, List.map_cons, List.map_append, List.map_map,
      List.map_cons, List.map_map]
    rfl
  · rw [Report.write_eq_put, Report.text, Sink.put_append, ← hnoted]
    rfl
  · rw [Sink.unlimited, Report.write_unlimited]
  · rw [Sink.unlimited, Report.write_unlimited, hprinted]
    simp
  · intro c hc
    rw [hlog]
    exact levels_about hindexed hhits hc _

/-- A hit on the last line, and a checkpoint behind the end that was given first. -/
theorem inspect_agrees_with_report_late : ∃ table,
    Table.ofEntries [⟨9, "late"⟩, ⟨2, "body"⟩] = .ok table ∧
      let inspection :=
        inspect (fun _ => .ok (Utf8.encode "<div>\r\n(\x7b".toList)) ⟨"a.tsx", table⟩
      inspection.log.map (fun e => (e.level, e.message)) =
          [(.debug, "read 9 bytes from a.tsx"), (.trace, "L2 body: Braces=1, Parens=1, Divs=1"),
            (.debug, "scanned 2 lines of a.tsx, 1 checkpoint(s) hit"),
            (.warn, "checkpoint L9 late is past the end of a.tsx (2 lines)")] ∧
        ∃ report, inspection.outcome = .ok report ∧ (report.write .unlimited).1 = .ok () ∧
          (report.write .unlimited).2.written.toList = Utf8.encode
            ("L2 body: Braces=1, Parens=1, Divs=1\n" ++
              "Final state: Braces=1, Parens=1, Divs=1\n").toList := by
  obtain ⟨table, h⟩ : ∃ table, Table.ofEntries [⟨9, "late"⟩, ⟨2, "body"⟩] = .ok table :=
    Table.ofEntries_isOk_iff.2 (by decide)
  have hdecode : Utf8.decode (Utf8.encode "<div>\r\n(\x7b".toList) =
      .ok "<div>\r\n(\x7b".toList := by decide +kernel
  have hreport : scanText "<div>\r\n(\x7b".toList table =
      ⟨[⟨2, "body", ⟨1, 1, 1⟩⟩], ⟨1, 1, 1⟩, 2⟩ := by
    have hreached : Checkpoint.reached [⟨9, "late"⟩, ⟨2, "body"⟩] 2 = [⟨2, "body"⟩] := by
      simp [Checkpoint.reached]
    rw [scanText_of_reached h (by decide +kernel) hreached]
    decide +kernel
  obtain ⟨houtcome, hlog, -, hok, hwritten, -⟩ := @inspect_agrees_with_report
    (fun _ => .ok (Utf8.encode "<div>\r\n(\x7b".toList)) ⟨"a.tsx", table⟩ _ _ _ h rfl hdecode
  have hnoted (log : List Event) : (log.filter (·.level = .trace)).map (·.message ++ "\n") =
      ((log.map fun e => (e.level, e.message)).filter (·.1 = .trace)).map (·.2 ++ "\n") := by
    simp [List.filter_map, Function.comp_def]
  rw [hreport] at houtcome hlog hok hwritten
  dsimp only at hlog
  rw [hnoted, hlog] at hwritten
  exact ⟨table, h, hlog.trans (by decide +kernel), _, houtcome, hok,
    hwritten.trans (by decide +kernel)⟩

end DepthGauge
