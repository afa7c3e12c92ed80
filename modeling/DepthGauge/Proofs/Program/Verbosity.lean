import DepthGauge.Proofs.Program.Ending

/-!
# Verbosity

How much a run tells of itself does not change what it does. Two runs that inspect the same print
the same and fail in the same way, and of their logs the shorter one is what its threshold leaves of
the longer one.

## Main definitions

* `Threshold.levels`: the levels that a threshold shows.
* `Arguments.LogsAt`: the threshold of a run, from the environment or else from the flags.
* `Level.ofLine?`: the level of a printed record.
* `Exit.logLines`, `Session.errorLines`: the records of the log, and what is printed behind them.

## Main results

* `Session.stderr_exit`: what a session prints to standard error, taken apart again.
* `runProgram_verbosity`: two runs of the program.
-/

namespace DepthGauge

/-! ## The threshold of a run -/

/-- The levels that a threshold shows. A higher threshold shows one more. -/
def Threshold.levels : Threshold → List Level
  | off => []
  | upTo .error => [.error]
  | upTo .warn => [.error, .warn]
  | upTo .info => [.error, .warn, .info]
  | upTo .debug => [.error, .warn, .info, .debug]
  | upTo .trace => [.error, .warn, .info, .debug, .trace]

theorem Threshold.shows_eq (t : Threshold) (level : Level) :
    t.shows level = decide (level ∈ t.levels) := by
  cases t with
  | off => cases level <;> rfl
  | upTo last => cases last <;> cases level <;> rfl

/-- The environment decides if it names a level, in upper or lower case, or is set to nothing.
Otherwise the flags do: one that asks for quiet, or the number of those that ask for more. -/
inductive Arguments.LogsAt (args : Arguments) : Option String → Threshold → Prop where
  | quiet (h : args.quiet = true) : args.LogsAt none (.upTo .error)
  | default (hquiet : args.quiet = false) (h : args.verbose = 0) : args.LogsAt none (.upTo .warn)
  | once (hquiet : args.quiet = false) (h : args.verbose = 1) : args.LogsAt none (.upTo .info)
  | twice (hquiet : args.quiet = false) (h : args.verbose = 2) : args.LogsAt none (.upTo .debug)
  | thrice (hquiet : args.quiet = false) (h : 3 ≤ args.verbose) : args.LogsAt none (.upTo .trace)
  | blank : args.LogsAt (some "") (.upTo .error)
  | off {name : String} (h : name.toLower = "off") : args.LogsAt (some name) .off
  | level {name word : String} {level : Level} (h : name.toLower = word)
      (hword : (word, level) ∈ [("error", .error), ("warn", .warn), ("info", .info),
        ("debug", .debug), ("trace", .trace)]) : args.LogsAt (some name) (.upTo level)

theorem toLower_eq_of_map {name lower : String} (h : name.toList.map Char.toLower = lower.toList) :
    name.toLower = lower :=
  String.toList_injective (String.toList_map.trans h)

namespace Threshold

theorem ofName?_blank : ofName? "" = some (.upTo .error) := by
  have hblank : "".toLower = "" := toLower_eq_of_map rfl
  simp [ofName?, hblank]

theorem ofFlags_of_three_le {verbose : Nat} (h : 3 ≤ verbose) :
    ofFlags verbose false = .upTo .trace := by
  obtain ⟨n, rfl⟩ := Nat.exists_eq_add_of_le' h
  rfl

end Threshold

/-- The level that is chosen is the one that is meant. -/
theorem Arguments.LogsAt.threshold_eq {args : Arguments} {setting? : Option String} {t : Threshold}
    (h : args.LogsAt setting? t) : args.threshold setting? = t := by
  cases h with
  | quiet h => simp [threshold, Threshold.ofFlags, h]
  | default hquiet h => simp [threshold, Threshold.ofFlags, hquiet, h]
  | once hquiet h => simp [threshold, Threshold.ofFlags, hquiet, h]
  | twice hquiet h => simp [threshold, Threshold.ofFlags, hquiet, h]
  | thrice hquiet h => simp [threshold, Threshold.ofFlags_of_three_le h, hquiet]
  | blank => simp [threshold, Threshold.ofName?_blank]
  | off h => simp [threshold, Threshold.ofName?, h]
  | level h hword =>
    simp only [List.mem_cons, Prod.mk.injEq, List.not_mem_nil, or_false] at hword
    rcases hword with ⟨rfl, rfl⟩ | ⟨rfl, rfl⟩ | ⟨rfl, rfl⟩ | ⟨rfl, rfl⟩ | ⟨rfl, rfl⟩ <;>
      simp [threshold, Threshold.ofName?, h]

/-! ## Printed records -/

/-- The level whose name a line starts with. -/
def Level.ofLine? (line : String) : Option Level :=
  let starts := [("ERROR ", error), ("WARN ", warn), ("INFO ", info), ("DEBUG ", debug),
    ("TRACE ", trace)]
  (starts.find? fun (start, _) => start.toList.isPrefixOf line.toList).map Prod.snd

theorem Level.ofLine?_format (e : Event) : ofLine? e.format = some e.level := by
  rw [ofLine?, Event.format]
  cases e.level <;> simp [name]

/-- What is said of a failure looks like no record, not even of an error. -/
theorem Level.ofLine?_error (message : String) : ofLine? s!"Error: {message}" = none := by
  have hline : s!"Error: {message}" = "Error: " ++ message := rfl
  simp [ofLine?, hline]

/-- The records of the log among all that is printed to standard error. -/
def Exit.logLines (exit : Exit) : List String :=
  exit.stderr.filter fun line => (Level.ofLine? line).isSome

namespace Session

variable (session : Session) (t : Threshold)

/-- What is printed of a failure, which is never left out. -/
def errorLines : List String :=
  (session.failure?.map fun failure => s!"Error: {failure.message}").toList

theorem errorLines_cases : session.errorLines = [] ∨
    ∃ failure : AppFailure, session.errorLines = [s!"Error: {failure.message}"] := by
  rw [errorLines]
  cases session.failure? with
  | none => exact .inl rfl
  | some failure => exact .inr ⟨failure, rfl⟩

theorem logLines_exit : (session.exit t).logLines =
    (session.log.filter (·.level ∈ t.levels)).map Event.format := by
  simp only [← Threshold.shows_eq]
  rw [Exit.logLines, exit, List.filter_append]
  cases session.failure? <;> simp [Level.ofLine?_format, Level.ofLine?_error, List.filter_map]

theorem stderr_exit :
    (session.exit t).stderr = (session.exit t).logLines ++ session.errorLines := by
  simp only [logLines_exit, ← Threshold.shows_eq]
  rfl

/-- A lower threshold shows what it leaves of what is shown anyway. -/
theorem logLines_exit_of_subset {t u : Threshold} (h : t.levels ⊆ u.levels) :
    (session.exit t).logLines = (session.exit u).logLines.filter fun line =>
      (Level.ofLine? line).any (· ∈ t.levels) := by
  have hlevel (e : Event) : (e.level ∈ t.levels ∧ e.level ∈ u.levels) = (e.level ∈ t.levels) :=
    propext (and_iff_left_of_imp fun ht => h ht)
  simp [logLines_exit, List.filter_map, List.filter_filter, Function.comp_def,
    Level.ofLine?_format, ← Bool.decide_and, hlevel]

end Session

/-! ## Two runs -/

theorem Arguments.run_congr {a b : Arguments} (hpath : a.path = b.path)
    (hcheckpoints : a.checkpoints = b.checkpoints) (files : FileReader) (stdout : Sink) :
    a.run files stdout = b.run files stdout := by
  have hconfigure : a.configure = b.configure := by
    simp only [configure, toTable, hpath, hcheckpoints]
  rw [run, run, inspection, inspection, hconfigure]

/-- How much is logged changes nothing else. Two runs on the same files and the same output, whose
command lines name the same path and checkpoints, exit with the same code, print the same, and put
the same failure, if any, behind their logs. Of the records of such a run, the log of each holds
those of the levels that its threshold shows. So if the first run has the lower threshold, then its
log is that of the second one without the records of the levels that it does not show. -/
theorem runProgram_verbosity {argv₁ argv₂ : List String} {args₁ args₂ : Arguments}
    {setting₁? setting₂? : Option String} {t₁ t₂ : Threshold}
    (h₁ : Arguments.parse argv₁ = .ok args₁) (h₂ : Arguments.parse argv₂ = .ok args₂)
    (hpath : args₁.path = args₂.path) (hcheckpoints : args₁.checkpoints = args₂.checkpoints)
    (ht₁ : args₁.LogsAt setting₁? t₁) (ht₂ : args₂.LogsAt setting₂? t₂)
    (files : FileReader) (stdout : Sink) :
    let exit₁ := runProgram argv₁ setting₁? files stdout
    let exit₂ := runProgram argv₂ setting₂? files stdout
    let records := (args₁.run files stdout).log
    exit₁.code = exit₂.code ∧ exit₁.stdout = exit₂.stdout ∧
      (∃ last, exit₁.stderr = exit₁.logLines ++ last ∧ exit₂.stderr = exit₂.logLines ++ last ∧
        (last = [] ∨ ∃ failure : AppFailure, last = [s!"Error: {failure.message}"])) ∧
      exit₁.logLines = (records.filter (·.level ∈ t₁.levels)).map Event.format ∧
      exit₂.logLines = (records.filter (·.level ∈ t₂.levels)).map Event.format ∧
      (t₁.levels ⊆ t₂.levels → exit₁.logLines =
        exit₂.logLines.filter fun line => (Level.ofLine? line).any (· ∈ t₁.levels)) := by
  have hsession := Arguments.run_congr hpath hcheckpoints files stdout
  rw [runProgram_of_parse h₁, runProgram_of_parse h₂, ht₁.threshold_eq, ht₂.threshold_eq, hsession]
  generalize args₂.run files stdout = session
  exact ⟨rfl, rfl, ⟨session.errorLines, session.stderr_exit t₁, session.stderr_exit t₂,
    session.errorLines_cases⟩, session.logLines_exit t₁, session.logLines_exit t₂,
    session.logLines_exit_of_subset⟩

/-- The environment overrides a quiet flag, and the other run shows all, on a full device. -/
theorem runProgram_verbosity_overridden :
    let files : FileReader := fun _ => .ok (Utf8.encode "(\n".toList)
    let exit₁ := runProgram ["-qc1=a", "-c2=b", "x"] (some "wArN") files .fullDevice
    let exit₂ := runProgram ["-vvv", "x", "--checkpoint=1=a", "-c2=b"] none files .fullDevice
    exit₁.code = exit₂.code ∧ exit₁.stdout = exit₂.stdout ∧
      exit₁.logLines = ["WARN checkpoint L2 b is past the end of x (1 lines)"] ∧
      exit₂.logLines = ["INFO scanning x with 2 checkpoint(s)", "DEBUG read 2 bytes from x",
        "TRACE L1 a: Braces=0, Parens=1, Divs=0", "DEBUG scanned 1 lines of x, 1 checkpoint(s) hit",
        "WARN checkpoint L2 b is past the end of x (1 lines)"] ∧
      exit₁.logLines = exit₂.logLines.filter fun line =>
        (Level.ofLine? line).any (· ∈ [.error, .warn]) := by
  let args : Arguments := ⟨"x", [⟨1, "a"⟩, ⟨2, "b"⟩], 0, true⟩
  have h₁ : Arguments.parse ["-qc1=a", "-c2=b", "x"] = .ok args := by rfl
  have h₂ : Arguments.parse ["-vvv", "x", "--checkpoint=1=a", "-c2=b"] =
      .ok ⟨"x", [⟨1, "a"⟩, ⟨2, "b"⟩], 3, false⟩ := by rfl
  have hname : "wArN".toLower = "warn" := toLower_eq_of_map (by rfl)
  have ht₁ : args.LogsAt (some "wArN") (.upTo .warn) := .level hname (by decide)
  intro files exit₁ exit₂
  obtain ⟨table, htable, hconfig⟩ :=
    args.exists_toConfig_eq_ok (by simp [args]) (by decide) (by decide)
  have hdecode : Utf8.decode (Utf8.encode "(\n".toList) = .ok "(\n".toList := by decide +kernel
  have hreport : scanText "(\n".toList table = ⟨[⟨1, "a", ⟨0, 1, 0⟩⟩], ⟨0, 1, 0⟩, 1⟩ := by
    have hreached : Checkpoint.reached args.checkpoints 1 = [⟨1, "a"⟩] := by
      simp [Checkpoint.reached, args]
    rw [scanText_of_reached htable (by decide +kernel) hreached]
    decide +kernel
  have hrecords : (args.run files .fullDevice).log = [.scanning "x" 2, .read 2 "x",
      .reached ⟨1, "a", ⟨0, 1, 0⟩⟩, .scanned 1 "x" 1, .pastEnd ⟨2, "b"⟩ "x" 1] := by
    have hsize : (Utf8.encode "(\n".toList).length = 2 := by decide +kernel
    rw [Arguments.run_of_toConfig_eq_ok hconfig, inspect_of_decode rfl hdecode, hreport, hsize,
      Logged.print_fullDevice rfl]
    simp [Report.records, Table.unreached, (Table.of_ofEntries_eq_ok htable).2, args]
  obtain ⟨hcode, hstdout, -, hlog₁, hlog₂, hfilter⟩ := runProgram_verbosity h₁ h₂ rfl rfl
    ht₁ (.thrice rfl le_rfl) files .fullDevice
  rw [hrecords] at hlog₁ hlog₂
  exact ⟨hcode, hstdout, hlog₁.trans (by decide +kernel), hlog₂.trans (by decide +kernel),
    hfilter (by decide)⟩

end DepthGauge
