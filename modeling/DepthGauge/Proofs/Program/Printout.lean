import DepthGauge.Proofs.Output.LineByLine
import DepthGauge.Proofs.Program.Configured
import DepthGauge.Proofs.Scan.Coverage

/-!
# The lines of a printout

A run that succeeds prints a line for each checkpoint that the file reaches, and one for the final
depths, unless the label of such a checkpoint holds a line end. White space is cut off at the ends
of a label only, so a line end can stand inside, and it is printed as it is.

## Main results

* `Arguments.stdout_of_success`: what a run that succeeds has printed.
* `Arguments.run_printsLines`: the lines that it has printed.
* `Arguments.run_breaks_label`: a label that is printed on two lines.
-/

namespace DepthGauge

/-! ## Lines for checkpoints -/

namespace Report

variable {report : Report} {reached : List Checkpoint}

theorem printsLines_iff_of_perm (h : (report.hits.map Hit.checkpoint).Perm reached) :
    PrintsLines (Utf8.encode report.text.toList) report.outputLines ↔
      ∀ c ∈ reached, '\n' ∉ c.label.toList := by
  rw [printsLines_iff]
  simp only [← h.mem_iff, List.forall_mem_map]
  rfl

theorem exists_printsLines_of_perm (h : (report.hits.map Hit.checkpoint).Perm reached) :
    ∃ ls, PrintsLines (Utf8.encode report.text.toList) ls ∧
      ls.length = reached.length + 1 + (reached.map (·.label.toList.count '\n')).sum := by
  have hcount : report.hits.length = reached.length := by simpa using h.length_eq
  have hsum := (h.map (·.label.toList.count '\n')).sum_nat
  rw [List.map_map] at hsum
  obtain ⟨ls, hls, hlength⟩ := report.exists_printsLines
  exact ⟨ls, hls, hlength.trans (by rw [hcount, ← hsum]; rfl)⟩

end Report

/-! ## Runs that succeed -/

namespace Arguments

variable {argv : List String} {args : Arguments} {files : FileReader} {stdout : Sink}
  {config : Config} {bytes : List UInt8} {text : List Char}

theorem stdout_of_success (hparse : parse argv = .ok args) (hwritten : stdout.written = #[])
    (hsuccess : (args.run files stdout).failure? = none) :
    ∃ config bytes text, args.toConfig = .ok config ∧ files config.path = .ok bytes ∧
      Utf8.decode bytes = .ok text ∧ (args.run files stdout).stdout.written.toList =
        Utf8.encode (scanText text config.checkpoints).text.toList := by
  obtain ⟨config, bytes, text, hconfig, hfile, htext, hprinted⟩ :=
    printsReport_of_success hparse hwritten hsuccess
  refine ⟨config, bytes, text, hconfig, hfile, htext, hprinted.trans ?_⟩
  rw [Report.toList_text]
  rfl

/-- What a run that succeeds has printed falls into lines in one way. They are a line for each
checkpoint that the file reaches, in the order of their lines, and one for the final depths, which
no line of a hit looks like, exactly if no label of these checkpoints holds a line end. Each line
end in such a label makes one line more. -/
theorem run_printsLines (hparse : parse argv = .ok args) (hwritten : stdout.written = #[])
    (hsuccess : (args.run files stdout).failure? = none) :
    ∃ config bytes text, args.toConfig = .ok config ∧ files config.path = .ok bytes ∧
      Utf8.decode bytes = .ok text ∧
      let report := scanText text config.checkpoints
      let reached := config.checkpoints.toList.filter (·.line ≤ (lines text).length)
      report.hits.Pairwise (·.line < ·.line) ∧ (report.hits.map Hit.checkpoint).Perm reached ∧
        (∀ hit ∈ report.hits, ¬ "Final state: ".toList <+: hit.format.toList) ∧
        ∃ ls, (∀ other, PrintsLines (args.run files stdout).stdout.written.toList other ↔
            other = ls) ∧
          ls.length = reached.length + 1 + (reached.map (·.label.toList.count '\n')).sum ∧
          (ls = report.hits.map Hit.format ++ [report.finalDepths.formatFinal] ↔
            ∀ c ∈ reached, '\n' ∉ c.label.toList) := by
  obtain ⟨config, bytes, text, hconfig, hfile, htext, hprinted⟩ :=
    stdout_of_success hparse hwritten hsuccess
  obtain ⟨entries, htable⟩ := exists_ofEntries_of_toConfig_eq_ok hconfig
  obtain ⟨hindexed, -⟩ := Table.of_ofEntries_eq_ok htable
  refine ⟨config, bytes, text, hconfig, hfile, htext, ?_⟩
  intro report reached
  have hperm : (report.hits.map Hit.checkpoint).Perm reached :=
    perm_hits_scanLines hindexed (lines text)
  obtain ⟨ls, hls, hlength⟩ := Report.exists_printsLines_of_perm hperm
  refine ⟨(covers_of_isIndexed hindexed _).ascending, hperm, fun hit _ => hit.not_prefix_format,
    ls, fun other => ?_, hlength, ?_⟩
  · rw [hprinted]
    exact ⟨fun hother => hother.unique hls, fun heq => heq ▸ hls⟩
  · rw [← Report.printsLines_iff_of_perm hperm]
    constructor
    · rintro rfl
      exact hls
    · exact fun houtput => hls.unique houtput

/-- Labels that look like the end of a printout and hold a carriage return, and a checkpoint that is
not reached, whose label holds a line end. -/
theorem run_printsLines_imitating :
    let files : FileReader := fun _ => .ok (Utf8.encode "(\n\x7b".toList)
    ∃ args ls, parse ["-c2=Final state: x", "-c", "1=a\rb", "-c", "3=y\nz", "x"] = .ok args ∧
      (args.run files .unlimited).failure? = none ∧
      PrintsLines (args.run files .unlimited).stdout.written.toList ls ∧ ls.length = 3 := by
  intro files
  let args : Arguments := ⟨"x", [⟨2, "Final state: x"⟩, ⟨1, "a\rb"⟩, ⟨3, "y\nz"⟩], 0, false⟩
  have hparse : parse ["-c2=Final state: x", "-c", "1=a\rb", "-c", "3=y\nz", "x"] = .ok args := by
    rfl
  have hdecode : Utf8.decode (Utf8.encode "(\n\x7b".toList) = .ok "(\n\x7b".toList := by
    decide +kernel
  obtain ⟨table, htable, hconfig⟩ :=
    args.exists_toConfig_eq_ok (by simp [args]) (by decide) (by decide)
  have hsuccess := (run_unlimited files hconfig rfl hdecode).1
  obtain ⟨config, bytes, text, hconfig', hfile, htext, -, -, -, ls, hls, hlength, -⟩ :=
    run_printsLines hparse rfl hsuccess
  cases hconfig.symm.trans hconfig'
  cases hfile
  cases hdecode.symm.trans htext
  refine ⟨args, ls, hparse, hsuccess, (hls ls).2 rfl, hlength.trans ?_⟩
  rw [(Table.of_ofEntries_eq_ok htable).2]
  decide +kernel

/-- A line end inside a label: the line of the hit is printed as two lines. -/
theorem run_breaks_label :
    let files : FileReader := fun _ => .ok (Utf8.encode "\x7b\n".toList)
    ∃ args, parse ["-c", "1=a\nb", "x"] = .ok args ∧
      (args.run files .unlimited).failure? = none ∧
      (args.run files .unlimited).stdout.written.toList = Utf8.encode
        ("L1 a\nb: Braces=1, Parens=0, Divs=0\n" ++
          "Final state: Braces=1, Parens=0, Divs=0\n").toList ∧
      ∀ ls, PrintsLines (args.run files .unlimited).stdout.written.toList ls → ls.length = 3 := by
  intro files
  let args : Arguments := ⟨"x", [⟨1, "a\nb"⟩], 0, false⟩
  have hparse : parse ["-c", "1=a\nb", "x"] = .ok args := by rfl
  have hdecode : Utf8.decode (Utf8.encode "\x7b\n".toList) = .ok "\x7b\n".toList := by
    decide +kernel
  obtain ⟨table, htable, hconfig⟩ :=
    args.exists_toConfig_eq_ok (by simp [args]) (by decide) (by decide)
  obtain ⟨hsuccess, hprinted⟩ := run_unlimited files hconfig rfl hdecode
  have hreport : scanText "\x7b\n".toList table =
      ⟨[⟨1, "a\nb", ⟨1, 0, 0⟩⟩], ⟨1, 0, 0⟩, 1⟩ := by
    have hreached : Checkpoint.reached args.checkpoints 1 = [⟨1, "a\nb"⟩] := by
      simp [Checkpoint.reached, args]
    rw [scanText_of_reached htable (by decide +kernel) hreached]
    decide +kernel
  have htext : (scanText "\x7b\n".toList table).text = "L1 a\nb: Braces=1, Parens=0, Divs=0\n" ++
      "Final state: Braces=1, Parens=0, Divs=0\n" := by
    rw [hreport]
    decide +kernel
  rw [htext] at hprinted
  refine ⟨args, hparse, hsuccess, hprinted, fun ls hls => ?_⟩
  rw [hprinted] at hls
  rw [hls.length_eq]
  decide +kernel

end Arguments

end DepthGauge
