/-!
# Lines

A line ends with `\n`, with `\r\n` or with a lone `\r`, and keeps this terminator. Only the last
line of a text may lack one. The definitions are stated for any alphabet with the two line symbols,
because the same rule numbers the lines of a text and of the bytes that encode it.

## Main definitions

* `LineSymbol α`: the line feed and the carriage return of the alphabet `α`.
* `lines text`: the lines of a text, in order.
* `nextLine? text`: the first line and the text after it.
* `LineCursor α`: a position in a text that moves line by line.
* `terminatorCount text`: the number of lines that have a terminator.

## Main results

* `flatten_lines`: the lines, joined, are the text.
* `lines_eq_nextLine?`: the first line of `lines` is the one that `nextLine?` cuts off.
-/

namespace DepthGauge

/-- An alphabet with the two symbols that line terminators are made of. -/
class LineSymbol (α : Type) where
  lf : α
  cr : α
  lf_ne_cr : lf ≠ cr

instance : LineSymbol Char where
  lf := '\n'
  cr := '\r'
  lf_ne_cr := by decide

instance : LineSymbol UInt8 where
  lf := 10
  cr := 13
  lf_ne_cr := by decide

open LineSymbol

variable {α : Type} [DecidableEq α] [LineSymbol α]

/-- A symbol that ends a line, or the first half of a pair that does. -/
def isTerminator (c : α) : Bool := c = lf || c = cr

/-! ## All lines -/

/-- Puts a symbol before the lines of the text that follows it. The symbol is a line of its own if
it is a line feed, or a carriage return that no line feed follows. -/
def attach (c : α) : List (List α) → List (List α)
  | [] => [[c]]
  | line :: rest =>
    if c = lf ∨ c = cr ∧ line.head? ≠ some lf then [c] :: line :: rest else (c :: line) :: rest

/-- The lines of a text, each with its terminator. -/
def lines (text : List α) : List (List α) := text.foldr attach []

@[simp]
theorem lines_nil : lines ([] : List α) = [] := rfl

theorem lines_cons (c : α) (text : List α) : lines (c :: text) = attach c (lines text) := rfl

@[simp]
theorem flatten_attach (c : α) (ls : List (List α)) : (attach c ls).flatten = c :: ls.flatten := by
  cases ls with
  | nil => rfl
  | cons line rest => simp only [attach]; split <;> rfl

@[simp]
theorem flatten_lines (text : List α) : (lines text).flatten = text := by
  induction text with
  | nil => rfl
  | cons c text ih => rw [lines_cons, flatten_attach, ih]

theorem attach_ne_nil (c : α) (ls : List (List α)) : attach c ls ≠ [] := by
  cases ls with
  | nil => simp [attach]
  | cons line rest => simp only [attach]; split <;> simp

@[simp]
theorem lines_eq_nil_iff {text : List α} : lines text = [] ↔ text = [] := by
  cases text with
  | nil => simp
  | cons c text => simp [lines_cons, attach_ne_nil]

theorem ne_nil_of_mem_attach {c : α} {ls : List (List α)} (h : [] ∉ ls) : [] ∉ attach c ls := by
  cases ls with
  | nil => simp [attach]
  | cons line rest => simp only [attach]; split <;> simp_all

theorem ne_nil_of_mem_lines (text : List α) : [] ∉ lines text := by
  induction text with
  | nil => simp
  | cons c text ih => exact ne_nil_of_mem_attach ih

/-! ## One line at a time -/

/-- The length of the terminator that `text` starts with, zero if it starts with none. -/
def terminatorLength : List α → Nat
  | [] => 0
  | c :: rest => if c = lf then 1 else if c = cr then (if rest.head? = some lf then 2 else 1) else 0

/-- The length of the first line of `text`, its terminator included: everything before the first
symbol that ends a line, and the terminator that starts there. -/
def lineLength (text : List α) : Nat :=
  let body := text.findIdx isTerminator
  body + terminatorLength (text.drop body)

/-- The first line of `text` and the text after it, or `none` at the end of the text. -/
def nextLine? (text : List α) : Option (List α × List α) :=
  if text.isEmpty then none else some (text.splitAt (lineLength text))

theorem lineLength_cons (c : α) (text : List α) :
    lineLength (c :: text) =
      if isTerminator c then terminatorLength (c :: text) else lineLength text + 1 := by
  by_cases h : isTerminator c <;> simp [lineLength, List.findIdx_cons, h]
  omega

@[simp]
theorem nextLine?_cons (c : α) (text : List α) :
    nextLine? (c :: text) =
      some ((c :: text).take (lineLength (c :: text)),
        (c :: text).drop (lineLength (c :: text))) := by
  simp [nextLine?]

theorem lineLength_cons_cons (c d : α) (text : List α) :
    lineLength (c :: d :: text) =
      if c = lf then 1 else if c = cr then (if d = lf then 2 else 1)
      else lineLength (d :: text) + 1 := by
  rw [lineLength_cons]
  by_cases hl : c = lf <;> by_cases hr : c = cr <;> simp [isTerminator, terminatorLength, hl, hr]

theorem lineLength_pos (c : α) (text : List α) : lineLength (c :: text) ≠ 0 := by
  rw [lineLength_cons]
  grind [isTerminator, terminatorLength]

theorem lineLength_le (text : List α) : lineLength text ≤ text.length := by
  induction text with
  | nil => simp [lineLength, terminatorLength]
  | cons c text ih =>
    rw [lineLength_cons]
    cases text <;> grind [terminatorLength]

/-- The lines are the first line, followed by the lines of the text after it. -/
theorem lines_eq_nextLine? (text : List α) :
    lines text = match nextLine? text with
      | none => []
      | some (line, rest) => line :: lines rest := by
  induction text with
  | nil => rfl
  | cons c text ih =>
    cases text with
    | nil =>
      by_cases hl : c = lf <;> by_cases hr : c = cr <;>
        simp [lines_cons, attach, lineLength, terminatorLength, isTerminator, List.findIdx_cons,
          hl, hr]
    | cons d text =>
      rw [nextLine?_cons] at ih ⊢
      simp only at ih ⊢
      have hd : ((d :: text).take (lineLength (d :: text))).head? = some d := by
        simp [List.head?_take, lineLength_pos d text]
      rw [lines_cons, ih, lineLength_cons_cons]
      simp only [attach, hd]
      by_cases hl : c = lf
      · simp [hl, ← ih]
      · by_cases hr : c = cr <;> by_cases hdl : d = lf <;>
          simp [hr, hdl, hl, ← ih, LineSymbol.lf_ne_cr.symm]
        simp [lineLength_cons, isTerminator, terminatorLength]

/-- A place in a text that moves on by whole lines. -/
structure LineCursor (α : Type) where
  rest : List α

namespace LineCursor

/-- The next line, and the cursor behind it. At the end of the text there is no line, and the
cursor stays where it is. -/
def next (cursor : LineCursor α) : Option (List α) × LineCursor α :=
  match nextLine? cursor.rest with
  | none => (none, cursor)
  | some (line, rest) => (some line, ⟨rest⟩)

/-- The lines that the cursor has not passed yet. -/
def lines (cursor : LineCursor α) : List (List α) := DepthGauge.lines cursor.rest

/-- The line given out is the first one left, and the others stay. -/
theorem next_eq (cursor : LineCursor α) :
    cursor.next.1 = cursor.lines.head? ∧ cursor.next.2.lines = cursor.lines.tail := by
  have h := lines_eq_nextLine? cursor.rest
  simp only [lines, next]
  split at h <;> simp_all

end LineCursor

/-! ## Counting terminators -/

/-- Whether a line ends with a terminator. -/
def isTerminated (line : List α) : Bool := line.getLast?.any isTerminator

/-- The number of terminators in a text, `\r\n` counted once. -/
def terminatorCount (text : List α) : Nat := (lines text).countP isTerminated

end DepthGauge
