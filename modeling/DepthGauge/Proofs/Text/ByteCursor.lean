import DepthGauge.Proofs.Text.EncodedLines

/-!
# Cursors on bytes

A machine keeps a text as its bytes. It looks for the end of a line byte by byte, and a cut inside a
character ends the program. No search ever leads there: the bytes that end a line are characters of
their own, so that a cursor on the bytes gives out the lines of the text, and each of them whole.

## Main definitions

* `Utf8.IsBoundary bytes offset`: the bytes can be cut at the offset.
* `Utf8.splitAt? bytes offset`: the cut, which fails at any other offset.
* `lineEnd? bytes`: where the first line ends, found byte by byte.
* `ByteCursor`: a position in the bytes of a text, with the call `ByteCursor.next?`.

## Main results

* `Utf8.isBoundary_encode_iff`: the boundaries of a text lie between its characters.
* `lineEnd?_encode`: the search finds the end of the first line of the text.
* `ByteCursor.next?_ofText`, `ByteCursor.after?_ofText`: one call and several, none of which fails.
* `ByteCursor.follows_lineCursor`: what a call does after any others.
-/

namespace DepthGauge

open LineSymbol

/-! ## Cuts -/

namespace Utf8

open String (utf8EncodeChar)

variable {a b : List UInt8} {text : List Char} {offset : Nat}

/-- The bytes end at the offset, or a character starts there. -/
def IsBoundary (bytes : List UInt8) (offset : Nat) : Prop :=
  offset = bytes.length ∨ ∃ byte ∈ bytes[offset]?, byte.IsUTF8FirstByte

instance (bytes : List UInt8) (offset : Nat) : Decidable (IsBoundary bytes offset) :=
  inferInstanceAs (Decidable (_ ∨ _))

/-- The bytes before the offset and those behind it. A cut inside a character fails, and so does one
behind the end. -/
def splitAt? (bytes : List UInt8) (offset : Nat) : Option (List UInt8 × List UInt8) :=
  if IsBoundary bytes offset then some (bytes.splitAt offset) else none

/-- Two characters of two bytes each. -/
example : splitAt? (encode ['ä', 'ö']) 2 = some (encode ['ä'], encode ['ö']) ∧
    splitAt? (encode ['ä', 'ö']) 3 = none := by decide

theorem isBoundary_append_add (a b : List UInt8) (offset : Nat) :
    IsBoundary (a ++ b) (a.length + offset) ↔ IsBoundary b offset := by
  simp [IsBoundary, List.getElem?_append_right]

theorem isBoundary_append_of_lt (h : offset < a.length) :
    IsBoundary (a ++ b) offset ↔ a[offset].IsUTF8FirstByte := by
  have hne : offset ≠ a.length + b.length := by omega
  simp [IsBoundary, List.getElem?_append_left h, h, hne]

/-- Behind the first character the boundaries are those of the others. -/
theorem isBoundary_encode_cons {c : Char} : IsBoundary (encode (c :: text)) offset ↔
    offset = 0 ∨ ∃ rest, offset = c.utf8Size + rest ∧ IsBoundary (encode text) rest := by
  have hlength : (utf8EncodeChar c).length = c.utf8Size := String.length_utf8EncodeChar c
  have hpos := c.utf8Size_pos
  rw [encode_cons]
  by_cases hin : offset < c.utf8Size
  · -- Within a character only its first byte can be the first one of a character.
    rw [isBoundary_append_of_lt (by omega), UInt8.isUTF8FirstByte_getElem_utf8EncodeChar]
    refine ⟨.inl, ?_⟩
    rintro (h | ⟨rest, h, -⟩)
    · exact h
    · omega
  · obtain ⟨rest, rfl⟩ := Nat.exists_eq_add_of_le (Nat.le_of_not_lt hin)
    rw [← hlength, isBoundary_append_add]
    simp [hlength, hpos.ne']

theorem isBoundary_encode_iff : IsBoundary (encode text) offset ↔
    ∃ start, start <+: text ∧ offset = (encode start).length := by
  induction text generalizing offset with
  | nil => simp [IsBoundary]
  | cons c text ih =>
    simp only [isBoundary_encode_cons, ih, List.prefix_cons_iff]
    constructor
    · rintro (rfl | ⟨-, rfl, start, hstart, rfl⟩)
      · exact ⟨[], .inl rfl, rfl⟩
      · exact ⟨c :: start, .inr ⟨start, rfl, hstart⟩, by simp⟩
    · rintro ⟨-, rfl | ⟨start, rfl, hstart⟩, rfl⟩
      · exact .inl rfl
      · exact .inr ⟨_, by simp, start, hstart, rfl⟩

theorem splitAt?_encode_append (a b : List Char) :
    splitAt? (encode (a ++ b)) (encode a).length = some (encode a, encode b) := by
  have hcut : IsBoundary (encode (a ++ b)) (encode a).length :=
    isBoundary_encode_iff.2 ⟨a, List.prefix_append a b, rfl⟩
  rw [splitAt?, if_pos hcut]
  simp

end Utf8

/-! ## First lines -/

section FirstLine

variable {α : Type} [DecidableEq α] [LineSymbol α] {text line rest : List α} {i : Nat}

theorem nextLine?_eq_some_iff : nextLine? text = some (line, rest) ↔
    text ≠ [] ∧ text.take (lineLength text) = line ∧ text.drop (lineLength text) = rest := by
  simp [nextLine?]

theorem append_of_nextLine? (h : nextLine? text = some (line, rest)) : line ++ rest = text := by
  obtain ⟨-, rfl, rfl⟩ := nextLine?_eq_some_iff.1 h
  exact List.take_append_drop _ text

theorem lines_of_nextLine? (h : nextLine? text = some (line, rest)) :
    lines text = line :: lines rest := by
  rw [lines_eq_nextLine?, h]

/-- A first line is full, or it is all of the text. -/
theorem isFullLine_or_of_nextLine? (h : nextLine? text = some (line, rest)) :
    IsFullLine line ∧ NoPairAcross line rest ∨ IsBody line ∧ rest = [] := by
  have hsplit : IsLineSplit text (line :: lines rest) :=
    lines_of_nextLine? h ▸ isLineSplit_lines text
  have hpair := hsplit.noPairAcross
  rw [flatten_lines] at hpair
  rcases hsplit.isFullLine_or with hfull | ⟨hnil, hbody⟩
  · exact .inl ⟨hfull, hpair⟩
  · exact .inr ⟨hbody, lines_eq_nil_iff.1 hnil⟩

theorem lineLength_of_findIdx?_eq_none (h : text.findIdx? isTerminator = none) :
    lineLength text = text.length := by
  have hbody := List.findIdx?_eq_none_iff_findIdx_eq.1 h
  simp [lineLength, hbody, terminatorLength]

theorem lineLength_of_findIdx?_eq_some (h : text.findIdx? isTerminator = some i) :
    lineLength text = if text[i]? = some cr ∧ text[i + 1]? = some lf then i + 2 else i + 1 := by
  have hne : (lf : α) ≠ cr := lf_ne_cr
  obtain ⟨-, hbody⟩ := List.findIdx?_eq_some_iff_findIdx_eq.1 h
  obtain ⟨hi, hend, -⟩ := List.findIdx?_eq_some_iff_getElem.1 h
  have hlength : lineLength text = i + terminatorLength (text[i] :: text.drop (i + 1)) := by
    rw [← List.drop_eq_getElem_cons hi, lineLength, hbody]
  obtain hlf | hcr : text[i] = lf ∨ text[i] = cr := by simpa [isTerminator] using hend
  · rw [hlength, hlf, terminatorLength, if_pos rfl, if_neg]
    simp [List.getElem?_eq_getElem hi, hlf, hne]
  · rw [hlength, hcr, terminatorLength, if_neg hne.symm, if_pos rfl, List.head?_drop]
    simp only [List.getElem?_eq_getElem hi, hcr, true_and]
    split <;> rfl

end FirstLine

/-! ## The search -/

section Search

variable {text line rest : List Char}

/-- The offset behind the first line of some bytes. It is one behind the first byte that ends a
line, or two behind it if a pair starts there, or the end of the bytes if no byte ends a line. -/
def lineEnd? (bytes : List UInt8) : Option Nat :=
  match bytes.findIdx? isTerminator with
  | some i => do
    let byte ← bytes[i]?
    return if byte = cr ∧ bytes[i + 1]? = some lf then i + 2 else i + 1
  | none => some bytes.length

theorem lineEnd?_eq (bytes : List UInt8) : lineEnd? bytes = some (lineLength bytes) := by
  unfold lineEnd?
  split
  case h_1 i hfind =>
    obtain ⟨hi, -, -⟩ := List.findIdx?_eq_some_iff_getElem.1 hfind
    rw [lineLength_of_findIdx?_eq_some hfind]
    simp [List.getElem?_eq_getElem hi]
  case h_2 hfind => rw [lineLength_of_findIdx?_eq_none hfind]

theorem nextLine?_encode (h : nextLine? text = some (line, rest)) :
    nextLine? (Utf8.encode text) = some (Utf8.encode line, Utf8.encode rest) := by
  have hne : Utf8.encode text ≠ [] := mt Utf8.encode_eq_nil_iff.1 (nextLine?_eq_some_iff.1 h).1
  have hfound := nextLine?_eq_some_iff.2 ⟨hne, rfl, rfl⟩
  have hlines := lines_of_nextLine? hfound
  rw [Utf8.lines_encode, lines_of_nextLine? h, List.map_cons, ← Utf8.lines_encode] at hlines
  obtain ⟨hline, hrest⟩ := List.cons.inj hlines
  rw [hfound, ← hline, ← flatten_lines (Utf8.encode rest), hrest, flatten_lines]

theorem lineEnd?_encode (h : nextLine? text = some (line, rest)) :
    lineEnd? (Utf8.encode text) = some (Utf8.encode line).length := by
  obtain ⟨-, hline, -⟩ := nextLine?_eq_some_iff.1 (nextLine?_encode h)
  rw [lineEnd?_eq, ← hline, List.length_take_of_le (lineLength_le _)]

/-- The bytes of a line are some of those of the text, and at least one. -/
theorem length_encode_of_nextLine? (h : nextLine? text = some (line, rest)) :
    1 ≤ (Utf8.encode line).length ∧
      (Utf8.encode line).length + (Utf8.encode rest).length = (Utf8.encode text).length := by
  have hne : line ≠ [] := by
    rintro rfl
    exact ne_nil_of_mem_lines text (by simp [lines_of_nextLine? h])
  have hpos := List.length_pos_of_ne_nil (mt Utf8.encode_eq_nil_iff.1 hne)
  refine ⟨hpos, ?_⟩
  rw [← append_of_nextLine? h, Utf8.encode_append, List.length_append]

theorem isBoundary_of_nextLine? (h : nextLine? text = some (line, rest)) :
    Utf8.IsBoundary (Utf8.encode text) (Utf8.encode line).length :=
  Utf8.isBoundary_encode_iff.2 ⟨line, ⟨rest, append_of_nextLine? h⟩, rfl⟩

end Search

/-! ## Cursors -/

/-- A place in the bytes of a text that moves on by whole lines. -/
structure ByteCursor where
  rest : List UInt8

namespace ByteCursor

def ofText (text : List Char) : ByteCursor := ⟨Utf8.encode text⟩

/-- The next line, if there is one, and the cursor behind it. The call fails if the line cannot be
cut off. -/
def next? (cursor : ByteCursor) : Option (Option (List UInt8) × ByteCursor) :=
  if cursor.rest.isEmpty then some (none, cursor)
  else do
    let stop ← lineEnd? cursor.rest
    let (line, rest) ← Utf8.splitAt? cursor.rest stop
    return (some line, ⟨rest⟩)

/-- The cursor after some calls, if none of them fails. -/
def after? (cursor : ByteCursor) : Nat → Option ByteCursor
  | 0 => some cursor
  | calls + 1 => do
    let (_, cursor) ← cursor.next?
    cursor.after? calls

theorem next?_of_nextLine? {text line rest : List Char} (h : nextLine? text = some (line, rest)) :
    (ofText text).next? = some (some (Utf8.encode line), ofText rest) := by
  have hne : Utf8.encode text ≠ [] := (nextLine?_eq_some_iff.1 (nextLine?_encode h)).1
  have hcut := Utf8.splitAt?_encode_append line rest
  rw [append_of_nextLine? h] at hcut
  simp [next?, ofText, hne, lineEnd?_encode h, hcut]

/-- A call on the bytes does what it does on the characters. -/
theorem next?_ofText (text : List Char) : (ofText text).next? =
    some ((LineCursor.next ⟨text⟩).1.map Utf8.encode, ofText (LineCursor.next ⟨text⟩).2.rest) := by
  cases h : nextLine? text with
  | none =>
    obtain rfl : text = [] := by simpa [nextLine?] using h
    rfl
  | some found =>
    rw [next?_of_nextLine? h]
    simp [LineCursor.next, h]

theorem after?_ofText (text : List Char) (calls : Nat) :
    (ofText text).after? calls = some (ofText (LineCursor.after ⟨text⟩ calls).rest) := by
  induction calls generalizing text with
  | zero => rfl
  | succ calls ih =>
    rw [after?, next?_ofText]
    exact ih (LineCursor.next ⟨text⟩).2.rest

/-- After any number of calls the cursor has not failed, and it is where a cursor on the characters
is. If text is left there, the search stops behind its first line. That is within the text and
between two characters, so that the next call does not fail either: it gives out the bytes of the
line, and leaves fewer bytes than there were. -/
theorem follows_lineCursor (text : List Char) (calls : Nat) :
    ∃ rest, LineCursor.after ⟨text⟩ calls = ⟨rest⟩ ∧
      (ofText text).after? calls = some (ofText rest) ∧
      (rest = [] → (ofText rest).next? = some (none, ofText rest)) ∧
      (rest ≠ [] → ∃ line more stop, nextLine? rest = some (line, more) ∧
        (line ++ more = rest ∧
          (IsFullLine line ∧ NoPairAcross line more ∨ IsBody line ∧ more = [])) ∧
        lineEnd? (Utf8.encode rest) = some stop ∧ stop = (Utf8.encode line).length ∧
        (1 ≤ stop ∧ stop ≤ (Utf8.encode rest).length) ∧
        Utf8.IsBoundary (Utf8.encode rest) stop ∧
        (ofText rest).next? = some (some (Utf8.encode line), ofText more) ∧
        (Utf8.encode more).length < (Utf8.encode rest).length) := by
  refine ⟨(LineCursor.after ⟨text⟩ calls).rest, rfl, after?_ofText text calls, ?_, ?_⟩ <;>
    generalize (LineCursor.after ⟨text⟩ calls).rest = rest
  · rintro rfl
    rfl
  · intro hne
    obtain ⟨line, more, h⟩ : ∃ line more, nextLine? rest = some (line, more) :=
      ⟨_, _, nextLine?_eq_some_iff.2 ⟨hne, rfl, rfl⟩⟩
    obtain ⟨hpos, hlength⟩ := length_encode_of_nextLine? h
    exact ⟨line, more, _, h, ⟨append_of_nextLine? h, isFullLine_or_of_nextLine? h⟩,
      lineEnd?_encode h, rfl, ⟨hpos, by omega⟩, isBoundary_of_nextLine? h, next?_of_nextLine? h,
      by omega⟩

/-- Characters of every width, with terminators on both sides. -/
theorem follows_lineCursor_every_width :
    let text := "é\r\n€\r😀\na\ré".toList
    let rest := "€\r😀\na\ré".toList
    (ofText text).after? 1 = some (ofText rest) ∧ rest ≠ [] ∧
      lineEnd? (Utf8.encode rest) = some 4 ∧ Utf8.IsBoundary (Utf8.encode rest) 4 ∧
      (ofText rest).next? = some (some (Utf8.encode "€\r".toList), ofText "😀\na\ré".toList) := by
  intro text rest
  obtain ⟨left, hat, hafter, -, hmore⟩ := follows_lineCursor text 1
  have hleft : rest = left := by
    have hrest : (LineCursor.after ⟨text⟩ 1).rest = rest := by decide +kernel
    rw [← hrest, hat]
  subst hleft
  have hne : rest ≠ [] := by decide +kernel
  obtain ⟨line, more, stop, hnext, -, hstop, -, -, hcut, hcall, -⟩ := hmore hne
  have hfirst : nextLine? rest = some ("€\r".toList, "😀\na\ré".toList) := by decide +kernel
  obtain ⟨rfl, rfl⟩ : "€\r".toList = line ∧ "😀\na\ré".toList = more := by simpa [hfirst] using hnext
  obtain rfl : 4 = stop := by
    have hfour : lineEnd? (Utf8.encode rest) = some 4 := by decide +kernel
    exact Option.some.inj (hfour.symm.trans hstop)
  exact ⟨hafter, hne, hstop, hcut, hcall⟩

end ByteCursor

end DepthGauge
