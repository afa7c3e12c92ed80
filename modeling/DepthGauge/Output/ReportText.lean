import DepthGauge.Output.Sink
import DepthGauge.Scan.Scanner

/-!
# Printed reports

A report is printed as one line for each hit and a last line with the final depths.

## Main definitions

* `Hit.format`, `Depths.formatFinal`: the lines without their ends.
* `Report.write`: writes the lines of a report to a sink.
-/

namespace DepthGauge

/-- The line of a hit. -/
def Hit.format (hit : Hit) : String := s!"L{hit.line} {hit.label}: {hit.depths.display}"

/-- The line of the final depths. -/
def Depths.formatFinal (depths : Depths) : String := s!"Final state: {depths.display}"

/-- Writes a line and its end. -/
def Sink.putLine (line : String) : Writing Unit := Sink.put (line ++ "\n")

/-- Writes the lines of a report, and stops at the first that does not fit. -/
def Report.write (report : Report) : Writing Unit := do
  report.hits.forM fun hit => Sink.putLine hit.format
  Sink.putLine report.finalDepths.formatFinal

end DepthGauge
