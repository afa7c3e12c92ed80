import DepthGauge.Checkpoint.Argument
import DepthGauge.Inspection.Config

/-!
# Arguments

What a command line says, and why it may say nothing.

## Main definitions

* `Flag`: the flags and the options, by their short and long names.
* `Arguments`: the meaning of a command line.
* `UsageError`: why a command line has no meaning.
* `Stop`: why reading a command line ends early, which is not always an error.
* `Arguments.toTable`, `Arguments.toConfig`: what to inspect.
-/

namespace DepthGauge

/-- What can be switched on or set by name. -/
inductive Flag where
  | checkpoint
  | verbose
  | quiet
  | help
  | version
deriving DecidableEq, Repr

namespace Flag

/-- The flag of a letter behind one dash. -/
def ofShort? : Char → Option Flag
  | 'c' => some checkpoint
  | 'v' => some verbose
  | 'q' => some quiet
  | 'h' => some help
  | 'V' => some version
  | _ => none

/-- The flag of a word behind two dashes. The whole word is needed. -/
def ofLong? (name : List Char) : Option Flag :=
  match String.ofList name with
  | "checkpoint" => some checkpoint
  | "verbose" => some verbose
  | "quiet" => some quiet
  | "help" => some help
  | "version" => some version
  | _ => none

end Flag

/-- The meaning of a command line. -/
structure Arguments where
  path : String := defaultPath
  /-- The checkpoints in the order in which they were given. A line may occur more than once. -/
  checkpoints : List Checkpoint := []
  /-- How often more output was asked for, up to `maxVerbosity`. -/
  verbose : Nat := 0
  quiet : Bool := false
deriving DecidableEq, Repr

/-- The limit of the count of verbose flags. -/
def maxVerbosity : Nat := 255

/-- Why a command line has no meaning. -/
inductive UsageError where
  /-- A flag that does not exist. -/
  | unknownFlag (arg : String)
  /-- A second path. -/
  | extraPath (arg : String)
  /-- A value attached to a flag that takes none. -/
  | unexpectedValue (arg : String)
  /-- A checkpoint option without a value. -/
  | missingValue
  /-- A path without characters. -/
  | emptyPath
  /-- The value of a checkpoint option is no checkpoint. -/
  | badCheckpoint (e : Checkpoint.ParseError)
  /-- The quiet flag is given twice. -/
  | repeatedQuiet
  /-- The verbose and the quiet flag are both given. -/
  | verboseAndQuiet
deriving DecidableEq, Repr

/-- The wording of a usage error. -/
def UsageError.message : UsageError → String
  | unknownFlag arg | extraPath arg => s!"unexpected argument '{arg}' found"
  | unexpectedValue arg => s!"unexpected value in '{arg}'"
  | missingValue => "a value is required for '--checkpoint <LINE=LABEL>'"
  | emptyPath => "a value is required for '[PATH]'"
  | badCheckpoint e => e.message
  | repeatedQuiet => "the argument '--quiet' cannot be used multiple times"
  | verboseAndQuiet => "the argument '--verbose' cannot be used with '--quiet'"

/-- Why reading a command line ends before its end. -/
inductive Stop where
  | help
  | version
  | usage (e : UsageError)
deriving DecidableEq, Repr

namespace Arguments

variable {args : Arguments}

/-- The table of the checkpoints. If none are given, the built-in ones apply. -/
def toTable (args : Arguments) : Except TableError Table :=
  if args.checkpoints.isEmpty then .ok .adminPage else Table.ofEntries args.checkpoints

/-- What to inspect. -/
def toConfig (args : Arguments) : Except TableError Config :=
  args.toTable.map fun table => .build (some args.path) (some table)

theorem toConfig_of_nil (h : args.checkpoints = []) :
    args.toConfig = .ok ⟨args.path, .adminPage⟩ := by
  simp [toConfig, toTable, h, Except.map, Config.build]

theorem toConfig_of_ne_nil (h : args.checkpoints ≠ []) :
    args.toConfig = (Table.ofEntries args.checkpoints).map fun table => ⟨args.path, table⟩ := by
  simp [toConfig, toTable, h, Config.build]

end Arguments

end DepthGauge
