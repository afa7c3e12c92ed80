import DepthGauge.Balance.Depths
import DepthGauge.Balance.Marker
import DepthGauge.Checkpoint.AdminPage
import DepthGauge.Checkpoint.Argument
import DepthGauge.Checkpoint.Table
import DepthGauge.CommandLine.Arguments
import DepthGauge.CommandLine.Reading
import DepthGauge.CommandLine.Usage
import DepthGauge.Inspection.Config
import DepthGauge.Inspection.Event
import DepthGauge.Inspection.Inspect
import DepthGauge.Inspection.Logged
import DepthGauge.Main
import DepthGauge.Output.ReportText
import DepthGauge.Output.Sink
import DepthGauge.Program
import DepthGauge.Scan.Scanner
import DepthGauge.Storage.FileTree
import DepthGauge.Storage.NormalPath
import DepthGauge.Text.Blank
import DepthGauge.Text.Control
import DepthGauge.Text.Line
import DepthGauge.Text.Utf8
import DepthGauge.Proofs.Balance.Counting
import DepthGauge.Proofs.Balance.Occurrence
import DepthGauge.Proofs.Balance.Straddling
import DepthGauge.Proofs.Balance.Tally
import DepthGauge.Proofs.Balance.Weight
import DepthGauge.Proofs.Checkpoint.Construction
import DepthGauge.Proofs.Checkpoint.Grammar
import DepthGauge.Proofs.Checkpoint.Lookup
import DepthGauge.Proofs.Checkpoint.Numeral
import DepthGauge.Proofs.Checkpoint.Written
import DepthGauge.Proofs.CommandLine.Checked
import DepthGauge.Proofs.CommandLine.Settling
import DepthGauge.Proofs.CommandLine.Spelling
import DepthGauge.Proofs.CommandLine.Understood
import DepthGauge.Proofs.Inspection.Records
import DepthGauge.Proofs.Inspection.Source
import DepthGauge.Proofs.Output.LineByLine
import DepthGauge.Proofs.Output.Printed
import DepthGauge.Proofs.Output.Readable
import DepthGauge.Proofs.Output.Shortage
import DepthGauge.Proofs.Program.Configured
import DepthGauge.Proofs.Program.Ending
import DepthGauge.Proofs.Program.Printout
import DepthGauge.Proofs.Program.Verbosity
import DepthGauge.Proofs.Scan.Coverage
import DepthGauge.Proofs.Scan.Feeding
import DepthGauge.Proofs.Scan.Joined
import DepthGauge.Proofs.Scan.Nesting
import DepthGauge.Proofs.Scan.Relabelled
import DepthGauge.Proofs.Scan.Restyled
import DepthGauge.Proofs.Scan.Selection
import DepthGauge.Proofs.Scan.Snapshot
import DepthGauge.Proofs.Scan.WholeText
import DepthGauge.Proofs.Scan.WordCounters
import DepthGauge.Proofs.Text.Border
import DepthGauge.Proofs.Text.ByteCursor
import DepthGauge.Proofs.Text.Decoding
import DepthGauge.Proofs.Text.EncodedLines
import DepthGauge.Proofs.Text.Encoding
import DepthGauge.Proofs.Text.LineSplit
import DepthGauge.Proofs.Text.NewlineStyle
import DepthGauge.Proofs.Text.PartialCharacter
import DepthGauge.Proofs.Text.Separator
import DepthGauge.Proofs.Text.Trimming
