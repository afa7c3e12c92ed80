import DepthGauge.Checkpoint.Table
import DepthGauge.Text.Blank

/-!
# Checkpoints as text

A checkpoint is written `LINE=LABEL`. The first `=` divides the two, so that a label may hold
others. White space around both is left out.

## Main definitions

* `readLineNumber?`: a line number in decimal digits.
* `Checkpoint.parse`: the checkpoint of a text, or why it has none.
-/

namespace DepthGauge

/-- The greatest line number, which has sixty-four binary digits, all of them one. -/
def maxLineNumber : Nat := 0xFFFFFFFFFFFFFFFF

/-- Reads a number of decimal digits, which a plus sign may precede, up to `maxLineNumber`. -/
def readLineNumber? (text : List Char) : Option Nat :=
  let digits := if text.head? = some '+' then text.tail else text
  if digits ≠ [] ∧ digits.all Char.isDigit ∧ Nat.ofDigitChars 10 digits 0 ≤ maxLineNumber then
    some (Nat.ofDigitChars 10 digits 0)
  else none

theorem readLineNumber?_le {text : List Char} {n : Nat} (h : readLineNumber? text = some n) :
    n ≤ maxLineNumber := by
  grind [readLineNumber?]

namespace Checkpoint

/-- Why a text is no checkpoint. -/
inductive ParseError where
  /-- There is no equals sign. -/
  | noEquals (arg : String)
  /-- What stands before the equals sign is no line number. -/
  | badNumber (text : String)
  /-- The line number is zero. -/
  | zeroLine
  /-- Nothing but white space stands after the equals sign. -/
  | noLabel (line : Nat)
deriving DecidableEq, Repr

/-- The wording of a parse error. -/
def ParseError.message : ParseError → String
  | noEquals arg => s!"Expected LINE=LABEL, got: {arg}"
  | badNumber text => s!"Invalid line number: {text}"
  | zeroLine => "Line numbers start at 1"
  | noLabel line => s!"Missing label for line {line}"

/-- Reads a checkpoint. The number is looked at before the label. -/
def parse (arg : String) : Except ParseError Checkpoint :=
  match arg.toList.dropWhile (· ≠ '=') with
  | [] => .error (.noEquals arg)
  | _ :: after =>
    let number := trim (arg.toList.takeWhile (· ≠ '='))
    match readLineNumber? number with
    | none => .error (.badNumber (String.ofList number))
    | some 0 => .error .zeroLine
    | some line =>
      let label := trim after
      if label = [] then .error (.noLabel line) else .ok ⟨line, String.ofList label⟩

/-- A checkpoint that was read is for one of the lines that can be counted, and has a label. -/
theorem parse_bounds {arg : String} {c : Checkpoint} (h : parse arg = .ok c) :
    1 ≤ c.line ∧ c.line ≤ maxLineNumber ∧ c.label ≠ "" := by
  simp only [parse] at h
  split at h
  · cases h
  · split at h
    · cases h
    · cases h
    · next n h₀ hn =>
      split at h
      · cases h
      · next hl =>
        cases h
        refine ⟨Nat.one_le_iff_ne_zero.2 h₀, readLineNumber?_le hn, ?_⟩
        simpa [← String.toList_inj] using hl

end Checkpoint

end DepthGauge
