import DepthGauge.Inspection.Inspect
import DepthGauge.Proofs.Scan.WholeText
import DepthGauge.Proofs.Text.Border
import DepthGauge.Proofs.Text.Decoding
import DepthGauge.Proofs.Text.EncodedLines
import DepthGauge.Proofs.Text.NewlineStyle

/-!
# Reading a source

A file that can be read gives its text, or a failure that tells where and how its bytes stop being
one. The failure also names a line. It is the line on which the text goes on once it is repaired, by
the numbers that a scan gives to lines.

## Main results

* `readSource_exact`: which bytes have a text, and what is told of the others.
* `faultLine_eq`: the line of a fault, by the text in front of it.
* `readSource_faultLine`: that line among the lines and the hits of a repaired text.
-/

namespace DepthGauge

variable {files : FileReader} {path : String} {bytes : List UInt8}

theorem readSource_eq_ok_iff (hfile : files path = .ok bytes) {text : List Char} :
    (readSource files path).outcome = .ok text ↔ Utf8.encode text = bytes := by
  rw [readSource_of_ok hfile, ← Utf8.decode_eq_ok_iff]
  cases Utf8.decode bytes <;> simp [Except.mapError]

theorem readSource_of_not_isWellFormed (hfile : files path = .ok bytes)
    (hbytes : ¬ Utf8.IsWellFormed bytes) : ∃ fault, fault.Describes bytes ∧
      (readSource files path).outcome =
        .error (.decoding path (faultLine bytes fault) fault) := by
  rcases Utf8.decode_cases bytes with ⟨text, -, htext⟩ | ⟨fault, hfault, hbytes⟩
  · exact absurd (Utf8.isWellFormed_iff.2 ⟨text, htext⟩) hbytes
  · refine ⟨fault, hbytes, ?_⟩
    rw [readSource_of_ok hfile, hfault]
    rfl

/-- A file gives the one text that its bytes encode. Bytes that encode none have a fault, and the
failure says exactly where it is. -/
theorem readSource_exact (hfile : files path = .ok bytes) :
    (∀ text, (readSource files path).outcome = .ok text ↔ Utf8.encode text = bytes) ∧
      ((∃ text, (readSource files path).outcome = .ok text) ↔ Utf8.IsWellFormed bytes) ∧
      (¬ Utf8.IsWellFormed bytes → ∃ fault, fault.IsExact bytes ∧
        (readSource files path).outcome =
          .error (.decoding path (faultLine bytes fault) fault)) := by
  refine ⟨fun text => readSource_eq_ok_iff hfile, ?_, ?_⟩
  · simp only [readSource_eq_ok_iff hfile, Utf8.isWellFormed_iff]
  · intro hbytes
    obtain ⟨fault, hfault, hout⟩ := readSource_of_not_isWellFormed hfile hbytes
    exact ⟨fault, hfault.isExact, hout⟩

/-- Two bytes of a character that the third does not go on with, and a text with a byte order mark
and a character of four bytes. -/
theorem readSource_exact_broken_character :
    Utf8.Fault.IsExact ⟨2, some 2⟩ [0x6F, 0x0A, 0xE2, 0x82, 0x41] ∧
      (readSource (fun _ => .ok [0x6F, 0x0A, 0xE2, 0x82, 0x41]) "a.tsx").outcome =
        .error (.decoding "a.tsx" 2 ⟨2, some 2⟩) ∧
      (readSource (fun _ => .ok [0xEF, 0xBB, 0xBF, 0xD, 0xF0, 0x9F, 0x98, 0x80]) "a.tsx").outcome =
        .ok "\uFEFF\r😀".toList := by
  have hdecode : Utf8.decode [0x6F, 0x0A, 0xE2, 0x82, 0x41] = .error ⟨2, some 2⟩ := by
    decide +kernel
  have hbroken := (Utf8.describes_of_decode_eq_error hdecode).not_isWellFormed
  obtain ⟨fault, hexact, hout⟩ := (@readSource_exact
    (fun _ => .ok [0x6F, 0x0A, 0xE2, 0x82, 0x41]) "a.tsx" _ rfl).2.2 hbroken
  have hknown : (readSource (fun _ => .ok [0x6F, 0x0A, 0xE2, 0x82, 0x41]) "a.tsx").outcome =
      .error (.decoding "a.tsx" 2 ⟨2, some 2⟩) := by decide +kernel
  obtain ⟨-, rfl⟩ : 2 = faultLine [0x6F, 0x0A, 0xE2, 0x82, 0x41] fault ∧ ⟨2, some 2⟩ = fault := by
    simpa [hknown] using hout
  refine ⟨hexact, hknown, ?_⟩
  exact ((@readSource_exact (fun _ => .ok [0xEF, 0xBB, 0xBF, 0xD, 0xF0, 0x9F, 0x98, 0x80])
    "a.tsx" _ rfl).1 _).2 (by decide +kernel)

/-! ## The line of a fault -/

/-- Bytes and characters are on the same lines. -/
theorem faultLine_eq {fault : Utf8.Fault} {text : List Char}
    (h : Utf8.encode text = bytes.take fault.validLength) :
    faultLine bytes fault = terminatorCount text + 1 := by
  rw [faultLine, ← h, Utf8.terminatorCount_encode]

/-- The line of a fault is the one behind the terminators of the longest text in front of it. If the
text goes on there with anything but a terminator, the first new character is on this line and no
other, and a checkpoint for it is hit. -/
theorem readSource_faultLine (hfile : files path = .ok bytes)
    (hbytes : ¬ Utf8.IsWellFormed bytes) : ∃ text line fault,
      (readSource files path).outcome = .error (.decoding path line fault) ∧
      IsGreatest {n | n ≤ bytes.length ∧ Utf8.IsWellFormed (bytes.take n)} fault.validLength ∧
      Utf8.encode text = bytes.take fault.validLength ∧
      line = (unifyNewlines text).count '\n' + 1 ∧
      ∀ c more, c ≠ '\n' ∧ c ≠ '\r' →
        (∀ n, HoldsPlace (lines (text ++ c :: more)) n text.length ↔ n = line) ∧
        ∀ entries table label, Table.ofEntries entries = .ok table → ⟨line, label⟩ ∈ entries →
          ⟨line, label, Depths.tally (textBetween (text ++ c :: more) 0 line)⟩ ∈
            (scanText (text ++ c :: more) table).hits := by
  obtain ⟨fault, hfault, hout⟩ := readSource_of_not_isWellFormed hfile hbytes
  obtain ⟨text, htext⟩ := hfault.text
  refine ⟨text, _, fault, hout, hfault.isGreatest, htext, ?_, ?_⟩
  · rw [faultLine_eq htext, count_unifyNewlines]
  · intro c more hc
    rw [faultLine_eq htext]
    have hplace := holdsPlace_terminatorCount hc more (a := text)
    refine ⟨fun n => ⟨fun hn => hn.unique hplace, fun hn => hn ▸ hplace⟩, ?_⟩
    intro entries table label htable hentry
    obtain ⟨hindexed, rfl⟩ := Table.of_ofEntries_eq_ok htable
    rw [← depthsBehind_lines]
    exact hit_mem_scanLines hindexed hentry hplace.le_length

/-- A fault behind a pair, a lone carriage return and the start of a line. A parenthesis is put
there. -/
theorem readSource_faultLine_third : ∃ table, Table.ofEntries [⟨3, "here"⟩] = .ok table ∧
    (readSource (fun _ => .ok [0x61, 0x0D, 0x0A, 0x0D, 0x62, 0xFF]) "a.tsx").outcome =
      .error (.decoding "a.tsx" 3 ⟨5, some 1⟩) ∧
    HoldsPlace (lines "a\r\n\rb(\n".toList) 3 5 ∧
    ⟨3, "here", ⟨0, 1, 0⟩⟩ ∈ (scanText "a\r\n\rb(\n".toList table).hits := by
  obtain ⟨table, h⟩ : ∃ table, Table.ofEntries [⟨3, "here"⟩] = .ok table :=
    Table.ofEntries_isOk_iff.2 (by decide)
  have hdecode : Utf8.decode [0x61, 0x0D, 0x0A, 0x0D, 0x62, 0xFF] = .error ⟨5, some 1⟩ := by
    decide +kernel
  have hbroken := (Utf8.describes_of_decode_eq_error hdecode).not_isWellFormed
  obtain ⟨text, line, fault, hout, -, htext, -, hmore⟩ := @readSource_faultLine
    (fun _ => .ok [0x61, 0x0D, 0x0A, 0x0D, 0x62, 0xFF]) "a.tsx" _ rfl hbroken
  have hknown : (readSource (fun _ => .ok [0x61, 0x0D, 0x0A, 0x0D, 0x62, 0xFF]) "a.tsx").outcome =
      .error (.decoding "a.tsx" 3 ⟨5, some 1⟩) := by decide +kernel
  obtain ⟨rfl, rfl⟩ : 3 = line ∧ ⟨5, some 1⟩ = fault := by simpa [hknown] using hout
  obtain rfl : text = "a\r\n\rb".toList :=
    Utf8.encode_injective (htext.trans (by decide +kernel))
  obtain ⟨hplace, hhit⟩ := hmore '(' ['\n'] (by decide)
  exact ⟨table, h, hknown, (hplace 3).2 rfl, hhit _ table "here" h (by simp)⟩

end DepthGauge
