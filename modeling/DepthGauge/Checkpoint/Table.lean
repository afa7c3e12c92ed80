import Std.Data.HashMap

/-!
# Checkpoint tables

A checkpoint names a line. A table holds checkpoints in the order in which they were given, at most
one for each line, and finds the checkpoint of a line in constant time.

## Main definitions

* `Checkpoint`: a line number, counted from one, and a label.
* `Table`: the checkpoints and an index from lines to places.
* `Table.ofEntries`: the table of a list, or the first reason why there is none.
* `Table.ofRange`: the table of adjacent lines with one label.
* `Table.label?`: the label of a line.
* `Table.unreached`: the checkpoints behind the end of a text.
-/

namespace DepthGauge

/-- A line of interest. -/
@[ext]
structure Checkpoint where
  line : Nat
  label : String
deriving DecidableEq, Repr

/-- Why a list of checkpoints makes no table. -/
inductive TableError where
  /-- A checkpoint is for line zero. -/
  | zeroLine
  /-- A checkpoint is for the line of an earlier one. -/
  | duplicate (line : Nat)
deriving DecidableEq, Repr

/-- The wording of a table error. -/
def TableError.message : TableError → String
  | zeroLine => "checkpoint line numbers start at 1, got 0"
  | duplicate line => s!"duplicate checkpoint for line {line}"

/-- Checkpoints in order, and for each line the place of its checkpoint. -/
structure Table where
  entries : Array Checkpoint
  index : Std.HashMap Nat Nat

namespace Table

/-- The table without checkpoints. -/
def empty : Table := ⟨#[], ∅⟩

/-- Adds a checkpoint at the end. -/
def push (t : Table) (c : Checkpoint) : Except TableError Table :=
  if c.line = 0 then .error .zeroLine
  else if t.index.contains c.line then .error (.duplicate c.line)
  else
    let place := t.entries.size
    .ok ⟨t.entries.push c, t.index.insert c.line place⟩

/-- The table of a list of checkpoints. The first one that cannot be added decides the error. -/
def ofEntries (entries : List Checkpoint) : Except TableError Table := entries.foldlM push empty

/-- Adds `count` adjacent lines with one label, the first of them `line`. The first line that cannot
be added ends this, however many lines are left. -/
def pushRange (t : Table) (label : String) (line : Nat) : Nat → Except TableError Table
  | 0 => .ok t
  | count + 1 => do (← t.push ⟨line, label⟩).pushRange label (line + 1) count

/-- The table of the lines from `first` to `last`, all with one label. -/
def ofRange (first last : Nat) (label : String) : Except TableError Table :=
  empty.pushRange label first (last + 1 - first)

/-- The checkpoints in the order in which they were given. -/
def toList (t : Table) : List Checkpoint := t.entries.toList

/-- The number of checkpoints. -/
def size (t : Table) : Nat := t.entries.size

/-- Whether there are no checkpoints. -/
def isEmpty (t : Table) : Bool := t.entries.isEmpty

/-- Whether a line has a checkpoint. -/
def contains (t : Table) (line : Nat) : Bool := t.index.contains line

/-- The label of the checkpoint of a line. -/
def label? (t : Table) (line : Nat) : Option String :=
  t.index[line]?.bind fun i => t.entries[i]?.map Checkpoint.label

/-- The last line that has a checkpoint. -/
def maxLine? (t : Table) : Option Nat := (t.toList.map Checkpoint.line).max?

/-- The checkpoints that a text of `count` lines does not reach, in the order of the table. -/
def unreached (t : Table) (count : Nat) : List Checkpoint :=
  t.toList.filter fun c => count < c.line

/-- Tables are equal if their checkpoints are, in order, and their indexes. -/
instance : BEq Table := ⟨fun a b => a.entries == b.entries && a.index == b.index⟩

@[simp]
theorem toList_empty : empty.toList = [] := rfl

/-- A checkpoint can be added if its line is not zero and free. -/
theorem push_eq_ok_iff {t u : Table} {c : Checkpoint} :
    t.push c = .ok u ↔ c.line ≠ 0 ∧ t.contains c.line = false ∧
      u = ⟨t.entries.push c, t.index.insert c.line t.entries.size⟩ := by
  rw [push, contains]
  by_cases h₀ : c.line = 0
  · simp [h₀]
  · cases h : t.index.contains c.line <;> simp [h₀, eq_comm]

theorem toList_push {t u : Table} {c : Checkpoint} (h : t.push c = .ok u) :
    u.toList = t.toList ++ [c] := by
  obtain ⟨-, -, rfl⟩ := push_eq_ok_iff.1 h
  simp [toList]

theorem pushRange_eq_foldlM (t : Table) (label : String) (line count : Nat) :
    t.pushRange label line count =
      ((List.range' line count).map (Checkpoint.mk · label)).foldlM push t := by
  induction count generalizing t line with
  | zero => rfl
  | succ count ih => simp [pushRange, List.range'_succ, ih]

/-- A range makes the table of its lines, listed one after the other. -/
theorem ofRange_eq_ofEntries (first last : Nat) (label : String) :
    ofRange first last label =
      ofEntries ((List.range' first (last + 1 - first)).map (Checkpoint.mk · label)) :=
  pushRange_eq_foldlM empty label first (last + 1 - first)

@[simp]
theorem size_eq (t : Table) : t.size = t.toList.length := by
  simp [size, toList]

theorem mem_unreached {t : Table} {count : Nat} {c : Checkpoint} :
    c ∈ t.unreached count ↔ c ∈ t.toList ∧ count < c.line := by
  simp [unreached]

end Table

end DepthGauge
