import DepthGauge.CommandLine.Reading
import DepthGauge.CommandLine.Usage
import DepthGauge.Inspection.Inspect

/-!
# The program

From a command line to what the program prints and its exit code. Files and standard output are
values here, so that a run is a function.

## Main definitions

* `Session`: the log, the standard output and the failure of an application run.
* `Arguments.configure`, `Arguments.inspection`: what the arguments say to inspect, and its report.
* `Arguments.run`: inspects what the arguments say and prints the report.
* `Stdout`: the states of standard output.
* `Exit`: what is seen of a program run from outside.
* `runProgram`: a program run.
-/

namespace DepthGauge

/-- Why the application fails. -/
inductive AppFailure where
  | inspection (failure : Failure)
  | output (fault : WriteFault)
deriving DecidableEq, Repr

/-- The wording of an application failure. -/
def AppFailure.message : AppFailure → String
  | inspection failure => failure.message
  | output fault => s!"Failed to write output: {fault.message}"

/-- An application run. -/
structure Session where
  log : List Event
  stdout : Sink
  failure? : Option AppFailure

/-- Prints the report of a finished inspection, or keeps its failure. -/
def Logged.print (inspection : Logged Report) (stdout : Sink) : Session :=
  match inspection.outcome with
  | .error failure => ⟨inspection.log, stdout, some (.inspection failure)⟩
  | .ok report =>
    match report.write stdout with
    | (.ok (), sink) => ⟨inspection.log, sink, none⟩
    | (.error fault, sink) => ⟨inspection.log, sink, some (.output fault)⟩

/-- The configuration of a run. The table is made before the parts are put together. -/
def Arguments.configure (args : Arguments) : Except Failure Config := do
  let table ← args.toTable.mapError .table
  (ConfigBuilder.build ⟨some args.path, some table⟩).mapError .config

/-- Only the table can fail, since no part of the configuration is left out. -/
theorem Arguments.configure_eq (args : Arguments) :
    args.configure = args.toConfig.mapError .table := by
  rw [configure, toConfig]
  simp only [ConfigBuilder.build_eq]
  cases args.toTable <;> rfl

/-- Inspects what the arguments say. Nothing is read if the checkpoints make no table. -/
def Arguments.inspection (args : Arguments) (files : FileReader) : Logged Report := do
  let config ← .ofExcept args.configure
  .record [.scanning config.path config.checkpoints.size]
  inspect files config

/-- Inspects what the arguments say and prints the report. -/
def Arguments.run (args : Arguments) (files : FileReader) (stdout : Sink) : Session :=
  (args.inspection files).print stdout

/-- The threshold of the verbose and quiet flags. -/
def Threshold.ofFlags (verbose : Nat) (quiet : Bool) : Threshold :=
  if quiet then .upTo .error
  else match verbose with
    | 0 => .upTo .warn
    | 1 => .upTo .info
    | 2 => .upTo .debug
    | _ => .upTo .trace

/-- The threshold of a program run: the one that the environment names, or else the flags. -/
def Arguments.threshold (args : Arguments) (setting? : Option String) : Threshold :=
  (setting?.bind Threshold.ofName?).getD (.ofFlags args.verbose args.quiet)

/-- The states of standard output: it takes whatever is written, or nothing. -/
inductive Stdout where
  | accepting
  | full
deriving DecidableEq, Repr

/-- Standard output as a sink. -/
def Stdout.sink : Stdout → Sink
  | accepting => .unlimited
  | full => .fullDevice

theorem Stdout.written_sink (stdout : Stdout) : stdout.sink.written = #[] := by
  cases stdout <;> rfl

/-- What is seen of a program run from outside. -/
structure Exit where
  code : Nat
  stdout : List UInt8
  /-- The records written to standard error, each followed by a line end. -/
  stderr : List String
deriving DecidableEq, Repr

/-- A session as it is seen from outside. The failure is printed behind the log. -/
def Session.exit (session : Session) (threshold : Threshold) : Exit where
  code := if session.failure?.isSome then 1 else 0
  stdout := session.stdout.written.toList
  stderr :=
    (session.log.filter fun e => threshold.shows e.level).map Event.format ++
      (session.failure?.map fun failure => s!"Error: {failure.message}").toList

/-- A text that was asked for is printed if it fits, and the program succeeds in any case. -/
def Exit.ofText (text : String) (stdout : Sink) : Exit :=
  ⟨0, (Sink.put text stdout).2.written.toList, []⟩

/-- A program run. -/
def runProgram (argv : List String) (setting? : Option String) (files : FileReader)
    (stdout : Sink) : Exit :=
  match Arguments.parse argv with
  | .error .help => .ofText helpText stdout
  | .error .version => .ofText versionText stdout
  | .error (.usage e) => ⟨2, [], [s!"error: {e.message}"]⟩
  | .ok args => (args.run files stdout).exit (args.threshold setting?)

end DepthGauge
