import DepthGauge.Balance.Depths
import DepthGauge.Checkpoint.Table
import DepthGauge.Text.Line

/-!
# Scanning

A scanner reads a text line by line, adds up the depths, and takes a snapshot of them behind each
line that has a checkpoint.

## Main definitions

* `Hit`: a checkpoint with the depths behind its line.
* `Report`: what a scan found.
* `Scanner`: the state of a scan, moved on by `Scanner.feedLine`.
* `scanLines`, `scanText`: the report of lines and of a text.
-/

namespace DepthGauge

/-- The depths at a checkpoint. -/
@[ext]
structure Hit where
  line : Nat
  label : String
  depths : Depths
deriving DecidableEq, Repr

/-- What a scan found. -/
@[ext]
structure Report where
  /-- The checkpoints that were reached, in the order of their lines. -/
  hits : List Hit
  /-- The depths behind the last line. -/
  finalDepths : Depths
  /-- The number of lines. -/
  lineCount : Nat
deriving DecidableEq, Repr

/-- The state of a scan. -/
structure Scanner where
  table : Table
  /-- The depths behind the last line read. -/
  depths : Depths
  /-- The number of lines read. -/
  lineNumber : Nat
  hits : Array Hit

namespace Scanner

/-- The state before the first line. -/
def start (table : Table) : Scanner := ⟨table, 0, 0, #[]⟩

/-- Reads a line, and gives the hit if the line has a checkpoint. -/
def feedLine (s : Scanner) (line : List Char) : Option Hit × Scanner :=
  let number := s.lineNumber + 1
  let depths := s.depths + Depths.tally line
  match s.table.label? number with
  | none => (none, { s with depths, lineNumber := number })
  | some label =>
    let hit : Hit := ⟨number, label, depths⟩
    (some hit, { s with depths, lineNumber := number, hits := s.hits.push hit })

/-- Reads a line. -/
def feed (s : Scanner) (line : List Char) : Scanner := (s.feedLine line).2

/-- The report of the lines read so far. -/
def finish (s : Scanner) : Report := ⟨s.hits.toList, s.depths, s.lineNumber⟩

@[simp]
theorem table_feed (s : Scanner) (line : List Char) : (s.feed line).table = s.table := by
  simp only [feed, feedLine]; split <;> rfl

@[simp]
theorem depths_feed (s : Scanner) (line : List Char) :
    (s.feed line).depths = s.depths + Depths.tally line := by
  simp only [feed, feedLine]; split <;> rfl

@[simp]
theorem lineNumber_feed (s : Scanner) (line : List Char) :
    (s.feed line).lineNumber = s.lineNumber + 1 := by
  simp only [feed, feedLine]; split <;> rfl

/-- The hit of a line is the newest of the hits. -/
@[simp]
theorem hits_feed (s : Scanner) (line : List Char) :
    (s.feed line).hits.toList = s.hits.toList ++ (s.feedLine line).1.toList := by
  simp only [feed, feedLine]; split <;> simp

/-- A line gives a hit if it has a checkpoint. -/
theorem fst_feedLine (s : Scanner) (line : List Char) :
    (s.feedLine line).1 = (s.table.label? (s.lineNumber + 1)).map fun label =>
      ⟨s.lineNumber + 1, label, s.depths + Depths.tally line⟩ := by
  simp only [feedLine]; split <;> simp_all

end Scanner

/-- The report of some lines, each taken as one line whatever it holds. -/
def scanLines (lines : List (List Char)) (table : Table) : Report :=
  (lines.foldl Scanner.feed (.start table)).finish

/-- The report of a text. -/
def scanText (text : List Char) (table : Table) : Report := scanLines (lines text) table

end DepthGauge
