/-!
# Control characters

A terminal acts on some control characters instead of showing them. A log shows them as escapes, so
that a name or a label cannot change how the log looks. Line ends, tabs and the other control
characters stay as they are, and so does the backslash, which means that escapes cannot be undone.

## Main definitions

* `isTerminalControl c`: whether `c` is escaped.
* `escapeControls text`: the text with its terminal controls escaped.

## Main results

* `isTerminalControl_of_mem_escapeControls`: an escaped text has no terminal controls.
-/

namespace DepthGauge

/-- Bell, backspace, form feed, escape and delete. -/
def isShortControl (c : Char) : Bool :=
  ['\x07', '\x08', '\x0c', '\x1b', '\x7f'].contains c

/-- The control characters behind ASCII, some of which stand for escape sequences. -/
def isLongControl (c : Char) : Bool := 0x80 ≤ c.toNat && c.toNat ≤ 0x9F

/-- Whether a terminal acts on a character in a way that a log must not allow. -/
def isTerminalControl (c : Char) : Bool := isShortControl c || isLongControl c

/-- The last two hexadecimal digits of the number of a character. -/
def hexPair (c : Char) : List Char :=
  [Nat.digitChar (c.toNat / 16 % 16), Nat.digitChar (c.toNat % 16)]

/-- A character as a log shows it. -/
def escapeControl (c : Char) : List Char :=
  if isShortControl c then ['\\', 'x'] ++ hexPair c
  else if isLongControl c then ['\\', 'u', '{'] ++ hexPair c ++ ['}']
  else [c]

/-- A text as a log shows it. -/
def escapeControls (text : List Char) : List Char := text.flatMap escapeControl

theorem isTerminalControl_of_mem_hexPair {c d : Char} (h : d ∈ hexPair c) :
    isTerminalControl d = false := by
  have digits : (List.range 16).all (fun n => !isTerminalControl (Nat.digitChar n)) := rfl
  have digit (n : Nat) : isTerminalControl (Nat.digitChar (n % 16)) = false := by
    simpa using List.all_eq_true.1 digits (n % 16) (List.mem_range.2 (Nat.mod_lt n (by decide)))
  simp only [hexPair, List.mem_cons, List.not_mem_nil, or_false] at h
  rcases h with rfl | rfl
  · exact digit (c.toNat / 16)
  · exact digit c.toNat

theorem isTerminalControl_of_mem_escapeControl {c d : Char} (h : d ∈ escapeControl c) :
    isTerminalControl d = false := by
  have frame (d : Char) (h : d ∈ ['\\', 'x', 'u', '{', '}']) : isTerminalControl d = false := by
    simp only [List.mem_cons, List.not_mem_nil, or_false] at h
    rcases h with rfl | rfl | rfl | rfl | rfl <;> rfl
  rw [escapeControl] at h
  split at h
  · rcases List.mem_append.1 h with h | h
    · exact frame d (by grind)
    · exact isTerminalControl_of_mem_hexPair h
  · split at h
    · rcases List.mem_append.1 h with h | h
      · rcases List.mem_append.1 h with h | h
        · exact frame d (by grind)
        · exact isTerminalControl_of_mem_hexPair h
      · exact frame d (by grind)
    · simp_all [isTerminalControl]

/-- Nothing is left in an escaped text that a terminal acts on. -/
theorem isTerminalControl_of_mem_escapeControls {text : List Char} {d : Char}
    (h : d ∈ escapeControls text) : isTerminalControl d = false := by
  obtain ⟨c, -, hd⟩ := List.mem_flatMap.1 h
  exact isTerminalControl_of_mem_escapeControl hd

end DepthGauge
