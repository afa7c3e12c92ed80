import DepthGauge.Output.ReportText
import DepthGauge.Text.Control

/-!
# Log records

What an inspection tells about its work while it goes on.

## Main definitions

* `Level`: how important a record is.
* `Threshold`: which levels are shown.
* `Event`: a record, with its level and its wording.
* `Event.format`: a record as it is printed, with control characters escaped.
-/

namespace DepthGauge

/-- The importance of a record. -/
inductive Level where
  | error
  | warn
  | info
  | debug
  | trace
deriving DecidableEq, Repr

namespace Level

/-- Greater ranks are less important. -/
def rank : Level → Nat
  | error => 1
  | warn => 2
  | info => 3
  | debug => 4
  | trace => 5

/-- The name in front of a printed record. -/
def name : Level → String
  | error => "ERROR"
  | warn => "WARN"
  | info => "INFO"
  | debug => "DEBUG"
  | trace => "TRACE"

end Level

/-- Which records are shown: none, or those up to a level. -/
inductive Threshold where
  | off
  | upTo (level : Level)
deriving DecidableEq, Repr

namespace Threshold

/-- The rank of the least important level that is shown. -/
def rank : Threshold → Nat
  | off => 0
  | upTo level => level.rank

/-- Whether records of a level are shown. -/
def shows (t : Threshold) (level : Level) : Bool := level.rank ≤ t.rank

/-- The threshold of a name, in upper or lower case. The empty name shows errors. Nothing else is
read: a number, a directive for a single target or a list, all of which a filter language can have,
gives no threshold, and the choice is left to the flags. -/
def ofName? (name : String) : Option Threshold :=
  match name.toLower with
  | "off" => some .off
  | "" | "error" => some (.upTo .error)
  | "warn" => some (.upTo .warn)
  | "info" => some (.upTo .info)
  | "debug" => some (.upTo .debug)
  | "trace" => some (.upTo .trace)
  | _ => none

end Threshold

/-- What happened. -/
inductive Event where
  /-- An inspection starts. -/
  | scanning (path : String) (checkpoints : Nat)
  /-- A file was read. -/
  | read (bytes : Nat) (path : String)
  /-- A checkpoint was reached. -/
  | reached (hit : Hit)
  /-- All lines were read. -/
  | scanned (lines : Nat) (path : String) (hits : Nat)
  /-- A checkpoint was not reached. -/
  | pastEnd (checkpoint : Checkpoint) (path : String) (lines : Nat)
deriving DecidableEq, Repr

namespace Event

/-- The importance of an event. -/
def level : Event → Level
  | scanning .. => .info
  | read .. => .debug
  | reached .. => .trace
  | scanned .. => .debug
  | pastEnd .. => .warn

/-- The wording of an event. -/
def message : Event → String
  | scanning path checkpoints => s!"scanning {path} with {checkpoints} checkpoint(s)"
  | read bytes path => s!"read {bytes} bytes from {path}"
  | reached hit => s!"L{hit.line} {hit.label}: {hit.depths.display}"
  | scanned lines path hits => s!"scanned {lines} lines of {path}, {hits} checkpoint(s) hit"
  | pastEnd checkpoint path lines =>
    s!"checkpoint L{checkpoint.line} {checkpoint.label} is past the end of {path} ({lines} lines)"

/-- An event as the log shows it. -/
def format (e : Event) : String :=
  e.level.name ++ " " ++ String.ofList (escapeControls e.message.toList)

end Event

end DepthGauge
