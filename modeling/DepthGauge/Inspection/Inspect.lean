import DepthGauge.Inspection.Logged
import DepthGauge.Scan.Scanner

/-!
# Inspections

An inspection reads the file of a configuration and scans it. The whole file is read and decoded
before its first line is scanned.

## Main definitions

* `faultLine`: the line on which bytes stop being text.
* `readSource`: the text of a file.
* `inspect`: the report of a configuration.
-/

namespace DepthGauge

/-- The number of the line on which decoding stops: one more than the terminators before. -/
def faultLine (bytes : List UInt8) (fault : Utf8.Fault) : Nat :=
  terminatorCount (bytes.take fault.validLength) + 1

/-- The text of a file. -/
def readSource (files : FileReader) (path : String) : Logged (List Char) := do
  let bytes ← .ofExcept ((files path).mapError (.fileAccess path))
  .record [.read bytes.length path]
  .ofExcept ((Utf8.decode bytes).mapError fun fault =>
    .decoding path (faultLine bytes fault) fault)

/-- Scans a line, and notes the hit if there is one. -/
def noteLine (state : Scanner × Array Event) (line : List Char) : Scanner × Array Event :=
  match state.1.feedLine line with
  | (none, scanner) => (scanner, state.2)
  | (some hit, scanner) => (scanner, state.2.push (.reached hit))

/-- Reads and scans the file of a configuration. -/
def inspect (files : FileReader) (config : Config) : Logged Report := do
  let text ← readSource files config.path
  let (scanner, notes) := (lines text).foldl noteLine (.start config.checkpoints, #[])
  let report := scanner.finish
  .record notes.toList
  .record [.scanned report.lineCount config.path report.hits.length]
  .record ((config.checkpoints.unreached report.lineCount).map fun checkpoint =>
    .pastEnd checkpoint config.path report.lineCount)
  return report

theorem readSource_of_error {files : FileReader} {path : String} {fault : FileFault}
    (h : files path = .error fault) :
    readSource files path = ⟨[], .error (.fileAccess path fault)⟩ := by
  rw [readSource, h]
  rfl

theorem readSource_of_ok {files : FileReader} {path : String} {bytes : List UInt8}
    (h : files path = .ok bytes) :
    readSource files path = ⟨[.read bytes.length path],
      (Utf8.decode bytes).mapError fun fault => .decoding path (faultLine bytes fault) fault⟩ := by
  rw [readSource, h]
  rfl

end DepthGauge
