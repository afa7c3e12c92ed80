import DepthGauge.Program
import DepthGauge.Proofs.CommandLine.Checked
import DepthGauge.Proofs.Inspection.Records
import DepthGauge.Proofs.Output.Readable

/-!
# How a run ends

Of the faults of a run, the earliest stage decides: the checkpoints, the file, its bytes, the
output. A run that fails has printed nothing, and says why last.

## Main definitions

* `Ending`: the ways a run can end.
* `Arguments.Ends`: the runs that end in each way, with what they logged and printed.
* `Arguments.PrintsReport`: the bytes of the report of a run.
* `Arguments.LeavesNothingPartial`: an application run that prints all of its report or nothing.
* `Exit.Fails`, `Exit.PrintsReport`: the exits of runs that fail and that succeed.

## Main results

* `Arguments.run_ends`, `Arguments.Ends.unique`: a run ends in exactly one way.
* `Arguments.printsReport_of_success`: a run that succeeds has printed its report.
* `runProgram_leaves_nothing_partial`: what is seen of it from outside.
-/

namespace DepthGauge

/-! ## Runs of the application -/

/-- The stage that a run ends at. -/
inductive Ending where
  | duplicate
  | fileAccess
  | decoding
  | unwritten
  | success
deriving DecidableEq, Repr

/-- The runs that end in each way. Those of a later ending have passed the stages before. -/
inductive Arguments.Ends (args : Arguments) (files : FileReader) (stdout : Sink) :
    Ending → Session → Prop where
  | duplicate {line : Nat} (hline : args.Repeats line) :
    args.Ends files stdout .duplicate
      ⟨[], stdout, some (.inspection (.table (.duplicate line)))⟩
  | fileAccess {config : Config} {fault : FileFault} (hconfig : args.toConfig = .ok config)
      (hfile : files config.path = .error fault) :
    args.Ends files stdout .fileAccess
      ⟨[.scanning config.path config.checkpoints.size], stdout,
        some (.inspection (.fileAccess config.path fault))⟩
  | decoding {config : Config} {bytes : List UInt8} {fault : Utf8.Fault}
      (hconfig : args.toConfig = .ok config) (hfile : files config.path = .ok bytes)
      (htext : Utf8.decode bytes = .error fault) :
    args.Ends files stdout .decoding
      ⟨[.scanning config.path config.checkpoints.size, .read bytes.length config.path], stdout,
        some (.inspection (.decoding config.path (faultLine bytes fault) fault))⟩
  | unwritten {config : Config} {bytes : List UInt8} {text : List Char} {fault : WriteFault}
      {sink : Sink} (hconfig : args.toConfig = .ok config) (hfile : files config.path = .ok bytes)
      (htext : Utf8.decode bytes = .ok text)
      (hwrite : (scanText text config.checkpoints).write stdout = (.error fault, sink)) :
    args.Ends files stdout .unwritten
      ⟨.scanning config.path config.checkpoints.size ::
        (scanText text config.checkpoints).records config bytes.length, sink,
        some (.output fault)⟩
  | success {config : Config} {bytes : List UInt8} {text : List Char}
      {sink : Sink} (hconfig : args.toConfig = .ok config) (hfile : files config.path = .ok bytes)
      (htext : Utf8.decode bytes = .ok text)
      (hwrite : (scanText text config.checkpoints).write stdout = (.ok (), sink)) :
    args.Ends files stdout .success
      ⟨.scanning config.path config.checkpoints.size ::
        (scanText text config.checkpoints).records config bytes.length, sink, none⟩

namespace Arguments

variable {argv : List String} {args : Arguments} {files : FileReader} {stdout : Sink}
  {config : Config} {ending : Ending} {session : Session}

theorem run_of_toConfig_eq_error {e : TableError} (h : args.toConfig = .error e)
    (files : FileReader) (stdout : Sink) :
    args.run files stdout = ⟨[], stdout, some (.inspection (.table e))⟩ := by
  rw [run, inspection, configure_eq, h]
  rfl

theorem run_of_toConfig_eq_ok (h : args.toConfig = .ok config) (files : FileReader)
    (stdout : Sink) :
    args.run files stdout = Logged.print
      ⟨.scanning config.path config.checkpoints.size :: (inspect files config).log,
        (inspect files config).outcome⟩ stdout := by
  rw [run, inspection, configure_eq, h]
  rfl

/-- One case for each stage. -/
theorem run_ends_of_ne_zero (hne : ∀ c ∈ args.checkpoints, c.line ≠ 0) (files : FileReader)
    (stdout : Sink) : ∃ ending, args.Ends files stdout ending (args.run files stdout) := by
  cases hconfig : args.toConfig with
  | error e =>
    obtain ⟨line, hline, rfl⟩ := of_toConfig_eq_error_of_ne_zero hne hconfig
    rw [run_of_toConfig_eq_error hconfig]
    exact ⟨_, .duplicate hline⟩
  | ok config =>
    rw [run_of_toConfig_eq_ok hconfig]
    cases hfile : files config.path with
    | error fault =>
      rw [inspect_of_fileFault hfile]
      exact ⟨_, .fileAccess hconfig hfile⟩
    | ok bytes =>
      cases htext : Utf8.decode bytes with
      | error fault =>
        rw [inspect_of_decodeFault hfile htext]
        exact ⟨_, .decoding hconfig hfile htext⟩
      | ok text =>
        rw [inspect_of_decode hfile htext, Logged.print]
        cases hwrite : (scanText text config.checkpoints).write stdout with
        | mk written sink =>
          cases written with
          | error fault => exact ⟨_, by simpa [hwrite] using .unwritten hconfig hfile htext hwrite⟩
          | ok _ => exact ⟨_, by simpa [hwrite] using .success hconfig hfile htext hwrite⟩

theorem run_ends (h : parse argv = .ok args) (files : FileReader) (stdout : Sink) :
    ∃ ending, args.Ends files stdout ending (args.run files stdout) :=
  run_ends_of_ne_zero (line_ne_zero_of_parse h) files stdout

/-- If a line is given twice, no file matters. -/
theorem run_of_not_nodup (h : parse argv = .ok args)
    (hline : ¬ (args.checkpoints.map Checkpoint.line).Nodup) (stdout : Sink) :
    ∃ line, args.Repeats line ∧ ∀ files, args.run files stdout =
      ⟨[], stdout, some (.inspection (.table (.duplicate line)))⟩ := by
  cases hconfig : args.toConfig with
  | error e =>
    obtain ⟨line, hrepeats, rfl⟩ := of_toConfig_eq_error h hconfig
    exact ⟨line, hrepeats, fun files => run_of_toConfig_eq_error hconfig files stdout⟩
  | ok config => exact absurd (nodup_of_toConfig_eq_ok hconfig) hline

end Arguments

/-- The ending that the failure of a session tells of. -/
def Session.ending? (session : Session) : Option Ending :=
  match session.failure? with
  | none => some .success
  | some (.output _) => some .unwritten
  | some (.inspection (.table _)) => some .duplicate
  | some (.inspection (.fileAccess ..)) => some .fileAccess
  | some (.inspection (.decoding ..)) => some .decoding
  | some (.inspection (.config _)) => none

namespace Arguments.Ends

variable {args : Arguments} {files : FileReader} {stdout : Sink} {ending other : Ending}
  {session : Session}

theorem ending?_eq (h : args.Ends files stdout ending session) :
    session.ending? = some ending := by
  cases h <;> rfl

theorem unique (h : args.Ends files stdout ending session)
    (h' : args.Ends files stdout other session) : ending = other := by
  have hsame := h.ending?_eq
  rw [h'.ending?_eq] at hsame
  exact (Option.some.inj hsame).symm

theorem ne_unwritten (h : args.Ends files stdout ending session) (hroom : stdout.room = none) :
    ending ≠ .unwritten := by
  rintro rfl
  obtain ⟨written, room, fault⟩ := stdout
  cases hroom
  cases h with
  | unwritten _ _ _ hwrite =>
    rw [Report.write_unlimited] at hwrite
    cases hwrite

theorem failure?_eq_none_iff (h : args.Ends files stdout ending session) :
    session.failure? = none ↔ ending = .success := by
  cases h <;> simp

/-- Before the scan nothing is printed, and nothing is noted of any checkpoint. -/
theorem of_failure (h : args.Ends files stdout ending session) (hsuccess : ending ≠ .success)
    (hunwritten : ending ≠ .unwritten) :
    session.stdout = stdout ∧ ∀ e ∈ session.log, e.level ≠ .trace ∧ e.level ≠ .warn := by
  cases h with
  | duplicate => simp
  | fileAccess => simp [Event.level]
  | decoding => simp [Event.level]
  | unwritten => exact absurd rfl hunwritten
  | success => exact absurd rfl hsuccess

theorem log_duplicate (h : args.Ends files stdout .duplicate session) : session.log = [] := by
  cases h
  rfl

theorem levels_fileAccess (h : args.Ends files stdout .fileAccess session) :
    session.log.map Event.level = [.info] := by
  cases h
  rfl

theorem levels_decoding (h : args.Ends files stdout .decoding session) :
    session.log.map Event.level = [.info, .debug] := by
  cases h
  rfl

end Arguments.Ends

/-! ## What is printed -/

namespace Arguments

/-- What is printed is the report of the file that the arguments name: a line for each hit, and a
last line for the final depths. -/
def PrintsReport (args : Arguments) (files : FileReader) (printed : List UInt8) : Prop :=
  ∃ config bytes text, args.toConfig = .ok config ∧ files config.path = .ok bytes ∧
    Utf8.decode bytes = .ok text ∧
    let report := scanText text config.checkpoints
    printed = Utf8.encode (endLines
      (report.hits.map (fun hit => s!"L{hit.line} {hit.label}: {hit.depths.display}") ++
        [s!"Final state: {report.finalDepths.display}"]))

variable {argv : List String} {args : Arguments} {files : FileReader} {stdout : Sink}

theorem PrintsReport.ne_nil {printed : List UInt8} (h : args.PrintsReport files printed) :
    printed ≠ [] := by
  obtain ⟨config, bytes, text, -, -, -, rfl⟩ := h
  exact Report.toList_text _ ▸ Report.encode_text_ne_nil (scanText text config.checkpoints)

/-- However much fits, a run that succeeds has printed the whole report. -/
theorem printsReport_of_success (hparse : parse argv = .ok args) (hwritten : stdout.written = #[])
    (hsuccess : (args.run files stdout).failure? = none) :
    args.PrintsReport files (args.run files stdout).stdout.written.toList := by
  obtain ⟨ending, hends⟩ := run_ends hparse files stdout
  obtain rfl := hends.failure?_eq_none_iff.1 hsuccess
  generalize args.run files stdout = session at hends
  cases hends with
  | success hconfig hfile htext hwrite =>
    have hall := (Report.write_eq_ok_iff _ hwritten).1 (congrArg Prod.fst hwrite)
    rw [hwrite, Report.toList_text] at hall
    exact ⟨_, _, _, hconfig, hfile, htext, hall⟩

end Arguments

namespace Logged

variable {inspection : Logged Report} {report : Report}

theorem print_of_error {failure : Failure} (h : inspection.outcome = .error failure)
    (stdout : Sink) :
    inspection.print stdout = ⟨inspection.log, stdout, some (.inspection failure)⟩ := by
  rw [print, h]

theorem print_unlimited (h : inspection.outcome = .ok report) : inspection.print .unlimited =
    ⟨inspection.log, ⟨(#[] : Array UInt8) ++ Utf8.encode report.text.toList, none, .bufferFull⟩,
      none⟩ := by
  simp only [print, h, Sink.unlimited, Report.write_unlimited]

theorem print_fullDevice (h : inspection.outcome = .ok report) : inspection.print .fullDevice =
    ⟨inspection.log, .fullDevice, some (.output .deviceFull)⟩ := by
  simp only [print, h, Sink.fullDevice, Report.write_full]

end Logged

/-- Where everything fits, a run succeeds if there is a text to scan. -/
theorem Arguments.run_unlimited {args : Arguments} {config : Config} {bytes : List UInt8}
    {text : List Char} (files : FileReader) (hconfig : args.toConfig = .ok config)
    (hfile : files config.path = .ok bytes) (htext : Utf8.decode bytes = .ok text) :
    (args.run files .unlimited).failure? = none ∧
      (args.run files .unlimited).stdout.written.toList =
        Utf8.encode (scanText text config.checkpoints).text.toList := by
  rw [run_of_toConfig_eq_ok hconfig, inspect_of_decode hfile htext, Logged.print_unlimited rfl]
  simp

/-- An application run that leaves nothing partial. It ends in one of four ways, of which the log
tells. If it fails, it has printed nothing and told of no checkpoint, and if it succeeds, it has
printed the whole report. If a line is given twice, no file matters. -/
structure Arguments.LeavesNothingPartial (args : Arguments) (files : FileReader)
    (session : Session) : Prop where
  ends : ∃! ending, ending ≠ .unwritten ∧ args.Ends files .unlimited ending session
  failed : session.failure? ≠ none →
    session.stdout.written = #[] ∧ ∀ e ∈ session.log, e.level ≠ .trace ∧ e.level ≠ .warn
  succeeded : session.failure? = none → args.PrintsReport files session.stdout.written.toList
  log_duplicate : args.Ends files .unlimited .duplicate session → session.log = []
  levels_fileAccess : args.Ends files .unlimited .fileAccess session →
    session.log.map Event.level = [.info]
  levels_decoding : args.Ends files .unlimited .decoding session →
    session.log.map Event.level = [.info, .debug]
  duplicate_iff : args.Ends files .unlimited .duplicate session ↔
    ¬ (args.checkpoints.map Checkpoint.line).Nodup
  unread : ¬ (args.checkpoints.map Checkpoint.line).Nodup →
    ∀ files', args.run files' .unlimited = session

theorem Arguments.run_leavesNothingPartial {argv : List String} {args : Arguments}
    (h : Arguments.parse argv = .ok args) (files : FileReader) :
    args.LeavesNothingPartial files (args.run files .unlimited) := by
  obtain ⟨ending, hends⟩ := run_ends h files .unlimited
  refine ⟨?_, ?_, printsReport_of_success h rfl, Ends.log_duplicate, Ends.levels_fileAccess,
    Ends.levels_decoding, ?_, ?_⟩
  · refine ⟨ending, ⟨hends.ne_unwritten rfl, hends⟩, ?_⟩
    rintro other ⟨-, hother⟩
    exact hother.unique hends
  · intro hfailure
    have hsuccess : ending ≠ .success := fun heq => hfailure (hends.failure?_eq_none_iff.2 heq)
    obtain ⟨hstdout, hlog⟩ := hends.of_failure hsuccess (hends.ne_unwritten rfl)
    exact ⟨by rw [hstdout]; rfl, hlog⟩
  · constructor
    · intro hduplicate
      generalize args.run files .unlimited = session at hduplicate
      cases hduplicate with
      | duplicate hrepeats => exact hrepeats.not_nodup
    · intro hline
      obtain ⟨line, hrepeats, hrun⟩ := run_of_not_nodup h hline .unlimited
      rw [hrun]
      exact .duplicate hrepeats
  · intro hline files'
    obtain ⟨line, -, hrun⟩ := run_of_not_nodup h hline .unlimited
    rw [hrun, hrun]

/-! ## Runs of the program -/

/-- An exit that tells of a failure and has printed nothing. -/
structure Exit.Fails (exit : Exit) (failure : AppFailure) : Prop where
  code : exit.code = 1
  stdout : exit.stdout = []
  stderr : exit.stderr.getLast? = some s!"Error: {failure.message}"

/-- All that is printed is the report of the file that the command line names. -/
def Exit.PrintsReport (exit : Exit) (argv : List String) (files : FileReader) : Prop :=
  ∃ args, Arguments.parse argv = .ok args ∧ args.PrintsReport files exit.stdout

theorem Session.exit_fails {session : Session} {failure : AppFailure}
    (h : session.failure? = some failure) (hwritten : session.stdout.written = #[])
    (threshold : Threshold) : (session.exit threshold).Fails failure where
  code := by simp [exit, h]
  stdout := by simp [exit, hwritten]
  stderr := by simp [exit, h]

section

variable {argv : List String} {args : Arguments} {files : FileReader} {setting? : Option String}

theorem runProgram_of_usage {e : UsageError} (h : Arguments.parse argv = .error (.usage e))
    (setting? : Option String) (files : FileReader) (stdout : Sink) :
    runProgram argv setting? files stdout = ⟨2, [], [s!"error: {e.message}"]⟩ := by
  rw [runProgram, h]

theorem runProgram_of_parse (h : Arguments.parse argv = .ok args) (setting? : Option String)
    (files : FileReader) (stdout : Sink) :
    runProgram argv setting? files stdout =
      (args.run files stdout).exit (args.threshold setting?) := by
  rw [runProgram, h]

/-- The exit tells how the application ended, and whether its report could be written. -/
theorem runProgram_ends (h : Arguments.parse argv = .ok args) (setting? : Option String)
    (files : FileReader) (stdout : Stdout) :
    let session := args.run files .unlimited
    let exit := runProgram argv setting? files stdout.sink
    (∀ failure, session.failure? = some failure → exit.Fails failure) ∧
      (session.failure? = none → stdout = .full → exit.Fails (.output .deviceFull)) ∧
      (session.failure? = none → stdout = .accepting →
        exit.code = 0 ∧ exit.stdout = session.stdout.written.toList) := by
  rw [runProgram_of_parse h, Arguments.run, Arguments.run]
  generalize args.inspection files = inspection
  cases houtcome : inspection.outcome with
  | error failure =>
    have hprint := Logged.print_of_error houtcome
    rw [hprint, hprint]
    refine ⟨?_, nofun, nofun⟩
    rintro _ ⟨⟩
    exact Session.exit_fails rfl stdout.written_sink _
  | ok report =>
    rw [Logged.print_unlimited houtcome]
    refine ⟨nofun, ?_, ?_⟩
    · rintro - rfl
      rw [Stdout.sink, Logged.print_fullDevice houtcome]
      exact Session.exit_fails rfl rfl _
    · rintro - rfl
      rw [Stdout.sink, Logged.print_unlimited houtcome]
      exact ⟨rfl, rfl⟩

/-- A run that is no request for help or the version prints all of the report or nothing. -/
theorem runProgram_printsReport_or_empty (setting? : Option String) (files : FileReader)
    (stdout : Stdout) (hhelp : Arguments.parse argv ≠ .error .help)
    (hversion : Arguments.parse argv ≠ .error .version) :
    let exit := runProgram argv setting? files stdout.sink
    exit.code = 0 ∧ exit.PrintsReport argv files ∨ exit.code ≠ 0 ∧ exit.stdout = [] := by
  intro exit
  cases hparse : Arguments.parse argv with
  | error stop =>
    cases stop with
    | help => exact absurd hparse hhelp
    | version => exact absurd hparse hversion
    | usage e => exact .inr (by simp [exit, runProgram_of_usage hparse])
  | ok args =>
    obtain ⟨hfailed, hfull, haccepting⟩ := runProgram_ends hparse setting? files stdout
    have hfails {failure : AppFailure} (h : exit.Fails failure) :
        exit.code ≠ 0 ∧ exit.stdout = [] := ⟨by simp [h.code], h.stdout⟩
    cases hfailure : (args.run files .unlimited).failure? with
    | some failure => exact .inr (hfails (hfailed failure hfailure))
    | none =>
      cases stdout with
      | full => exact .inr (hfails (hfull hfailure rfl))
      | accepting =>
        obtain ⟨hcode, hstdout⟩ := haccepting hfailure rfl
        exact .inl ⟨hcode, args, hparse,
          hstdout ▸ Arguments.printsReport_of_success hparse rfl hfailure⟩

/-- Errors never leave partial results. Seen from outside, a run that fails prints nothing and says
why last, and so does one whose report cannot be written. A wrong command line fails whatever the
files are. Otherwise the exit code is zero exactly if all of the report was printed, which is if
anything was. -/
theorem runProgram_leaves_nothing_partial (argv : List String) (setting? : Option String)
    (files : FileReader) (stdout : Stdout) :
    let exit := runProgram argv setting? files stdout.sink
    (∀ args, Arguments.parse argv = .ok args →
      let session := args.run files .unlimited
      args.LeavesNothingPartial files session ∧
        (∀ failure, session.failure? = some failure → exit.Fails failure) ∧
        (session.failure? = none → stdout = .full → exit.Fails (.output .deviceFull)) ∧
        (session.failure? = none → stdout = .accepting →
          exit.code = 0 ∧ exit.stdout = session.stdout.written.toList)) ∧
      (∀ e, Arguments.parse argv = .error (.usage e) →
        exit.code = 2 ∧ ∀ files', runProgram argv setting? files' stdout.sink = exit) ∧
      (Arguments.parse argv ≠ .error .help → Arguments.parse argv ≠ .error .version →
        (exit.code = 0 ↔ exit.PrintsReport argv files) ∧ (exit.stdout ≠ [] → exit.code = 0)) := by
  refine ⟨fun args h => ⟨Arguments.run_leavesNothingPartial h files,
    runProgram_ends h setting? files stdout⟩, ?_, ?_⟩
  · intro e h
    have hexit := runProgram_of_usage h setting?
    exact ⟨by rw [hexit], fun files' => by rw [hexit, hexit]⟩
  · intro hhelp hversion
    obtain ⟨hcode, hprints⟩ | ⟨hcode, hempty⟩ :=
      runProgram_printsReport_or_empty setting? files stdout hhelp hversion
    · exact ⟨iff_of_true hcode hprints, fun _ => hcode⟩
    · refine ⟨iff_of_false hcode ?_, absurd hempty⟩
      rintro ⟨args, -, hprints⟩
      exact hprints.ne_nil hempty

/-- A line that is given twice, bytes that are no text, and a full device: the line is reported. A
good file on a full device, and then on one that takes its report. -/
theorem runProgram_leaves_nothing_partial_three_runs :
    let files : FileReader := fun _ => .ok (Utf8.encode "(\n".toList)
    let repeated := runProgram ["-c", "3=a", "-c3=b", "x"] none (fun _ => .ok [0xFF])
      Stdout.full.sink
    let unwritten := runProgram ["-c1=a", "x"] none files Stdout.full.sink
    let printed := runProgram ["-c1=a", "x"] none files Stdout.accepting.sink
    (repeated.code = 1 ∧ repeated.stdout = [] ∧ repeated.stderr.getLast? =
        some "Error: Invalid checkpoint table: duplicate checkpoint for line 3") ∧
      (unwritten.code = 1 ∧ unwritten.stdout = [] ∧ unwritten.stderr.getLast? =
        some "Error: Failed to write output: No space left on device (os error 28)") ∧
      printed.code = 0 ∧ printed.stdout = Utf8.encode
        "L1 a: Braces=0, Parens=1, Divs=0\nFinal state: Braces=0, Parens=1, Divs=0\n".toList := by
  intro files repeated unwritten printed
  refine ⟨?_, ?_⟩
  · have hparse : Arguments.parse ["-c", "3=a", "-c3=b", "x"] =
        .ok ⟨"x", [⟨3, "a"⟩, ⟨3, "b"⟩], 0, false⟩ := by decide +kernel
    obtain ⟨line, hline, hsession⟩ := Arguments.run_of_not_nodup hparse (by decide) .unlimited
    obtain rfl : line = 3 := by simpa using hline.mem
    obtain ⟨-, hfails, -⟩ := (runProgram_leaves_nothing_partial ["-c", "3=a", "-c3=b", "x"] none
      (fun _ => .ok [0xFF]) .full).1 _ hparse
    obtain ⟨hcode, hstdout, hstderr⟩ := hfails _ (by rw [hsession])
    exact ⟨hcode, hstdout, hstderr.trans (by decide +kernel)⟩
  · let args : Arguments := ⟨"x", [⟨1, "a"⟩], 0, false⟩
    have hparse : Arguments.parse ["-c1=a", "x"] = .ok args := by rfl
    have hdecode : Utf8.decode (Utf8.encode "(\n".toList) = .ok "(\n".toList := by
      decide +kernel
    obtain ⟨table, htable, hconfig⟩ :=
      args.exists_toConfig_eq_ok (by simp [args]) (by decide) (by decide)
    have hsuccess := (Arguments.run_unlimited files hconfig rfl hdecode).1
    have hreport : scanText "(\n".toList table = ⟨[⟨1, "a", ⟨0, 1, 0⟩⟩], ⟨0, 1, 0⟩, 1⟩ := by
      have hreached : Checkpoint.reached args.checkpoints 1 = [⟨1, "a"⟩] := by
        simp [Checkpoint.reached, args]
      rw [scanText_of_reached htable (by decide +kernel) hreached]
      decide +kernel
    obtain ⟨-, -, hfull, -⟩ :=
      (runProgram_leaves_nothing_partial ["-c1=a", "x"] none files .full).1 _ hparse
    obtain ⟨hfull_code, hfull_stdout, hfull_stderr⟩ := hfull hsuccess rfl
    obtain ⟨hsession, -, -, haccepting⟩ :=
      (runProgram_leaves_nothing_partial ["-c1=a", "x"] none files .accepting).1 _ hparse
    obtain ⟨hcode, hstdout⟩ := haccepting hsuccess rfl
    obtain ⟨config, bytes, text, hconfig', hfile, htext, hprinted⟩ := hsession.succeeded hsuccess
    cases hconfig.symm.trans hconfig'
    cases hfile
    cases hdecode.symm.trans htext
    rw [hreport] at hprinted
    exact ⟨⟨hfull_code, hfull_stdout, hfull_stderr.trans (by decide +kernel)⟩, hcode,
      hstdout.trans (hprinted.trans (by decide +kernel))⟩

end

end DepthGauge
